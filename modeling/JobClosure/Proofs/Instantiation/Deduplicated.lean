import JobClosure.Proofs.CallSite.Keys
import JobClosure.Proofs.Instantiation.Order
import Mathlib

/-!
# Call references that are kept once

Of several call references with one key only the first is resolved. What the others would come to is not lost
if they stand for the same target in the same method. The key is made of texts, so they need not
(`ScanResult.Merged`), and then the instantiations are short of exactly those targets that no reference that
was kept comes to. Nothing is lost among legible call references (`resolve_dedupeCalls`).
-/

namespace JobClosure

/-! ## What a reference comes to -/

/-- Only the target and the method of a call reference matter for its walk. -/
theorem Resolver.Reaches.of_node {r : Resolver} {call call' : CallReference} {ref : TypeRef}
    (h : r.Reaches call ref) (hnode : call'.node = call.node) : r.Reaches call' ref := by
  obtain ⟨htarget, hentry⟩ := Prod.mk.inj hnode
  have hstart : Walk.start call' = Walk.start call := by
    rw [Walk.start, Walk.start, htarget, hentry]
  have hafter : ∀ n, Walk.after r.graph call' n = Walk.after r.graph call n := by
    intro n
    induction n with
    | zero => exact hstart
    | succ n ih => rw [Walk.after, Walk.after, ih]
  obtain ⟨s, ⟨n, rest, hpending⟩, hend⟩ := h
  exact ⟨s, ⟨n, rest, hafter n ▸ hpending⟩, hend⟩

namespace ScanResult

variable {raw : ScanResult} {index : Index} {ref : TypeRef}

/-- A target of a call reference that is dropped for one with its key, of another target or another method. -/
def Merged (raw : ScanResult) (index : Index) (ref : TypeRef) : Prop :=
  ∃ call ∈ raw.calls, ∃ first ∈ raw.dedupeCalls.calls, first.key = call.key ∧ first.node ≠ call.node ∧
    (⟨index, raw.graph⟩ : Resolver).Reaches call ref

/-- **What all call references come to** is what those that are kept come to, and what was merged. -/
theorem exists_reaches_iff : (∃ call ∈ raw.calls, (⟨index, raw.graph⟩ : Resolver).Reaches call ref) ↔
    raw.Found index ref ∨ raw.Merged index ref := by
  constructor
  · rintro ⟨call, hcall, hreaches⟩
    obtain ⟨first, hfirst, hkey⟩ := exists_kept hcall
    by_cases hnode : first.node = call.node
    · exact .inl ⟨first, hfirst, hreaches.of_node hnode⟩
    · exact .inr ⟨call, hcall, first, hfirst, hkey, hnode, hreaches⟩
  · rintro (⟨call, hcall, hreaches⟩ | ⟨call, hcall, -, -, -, -, hreaches⟩)
    · exact ⟨call, mem_calls_of_dedupeCalls hcall, hreaches⟩
    · exact ⟨call, hcall, hreaches⟩

theorem KeysTell.not_merged (h : raw.KeysTell) : ¬ raw.Merged index ref := by
  rintro ⟨call, hcall, first, hfirst, hkey, hnode, -⟩
  exact hnode (h first (mem_calls_of_dedupeCalls hfirst) call hcall hkey)

/-- No two targets that call references come to are spelled alike: both are at the ends of routes. -/
theorem Grammatical.eq_of_reaches (hnames : raw.Grammatical) {call call' : CallReference} {a b : TypeRef}
    (hcall : call ∈ raw.calls) (hcall' : call' ∈ raw.calls)
    (ha : (⟨index, raw.graph⟩ : Resolver).Reaches call a) (hb : (⟨index, raw.graph⟩ : Resolver).Reaches call' b)
    (hspell : a.spell = b.spell) : a = b := by
  obtain ⟨s, hs, hend⟩ := ha
  obtain ⟨t, ht, hend'⟩ := hb
  obtain ⟨keys, hroute⟩ := Walk.route_of_reached hs.reached hend
  obtain ⟨keys', hroute'⟩ := Walk.route_of_reached ht.reached hend'
  exact hnames.spell_injOn hcall hcall' hroute hroute' hspell

/-- **Keys of legible call references tell them apart.** -/
theorem Owned.keysTell (howned : raw.Owned) (hnames : raw.Grammatical) (h : ∀ call ∈ raw.calls, call.Legible) :
    raw.KeysTell := by
  intro call hcall call' hcall' hkey
  exact (h call hcall).node_eq (h call' hcall') (howned.calls call hcall) (howned.calls call' hcall')
    (hnames.calls call hcall) (hnames.calls call' hcall') hkey

end ScanResult

/-! ## What is resolved -/

/--
**What is lost when call references are kept once.**

Loaded modules are scanned type by type. Resolving the call references that are kept and resolving all of them
both give a list. The second has the members of the first, and the targets that were merged. So the two are the
same exactly if some reference that is kept comes to every merged target. Among legible call references nothing
is merged: those with one key are one target in one method.
-/
theorem resolve_dedupeCalls {marker : String} {modules : List Module} (hloaded : ∀ m ∈ modules, m.Loaded)
    {raw : ScanResult}
    (hraw : (Scanner.scanTypes ⟨Index.ofModules modules, marker⟩ {} (modules.flatMap (·.types))).1 = .ok raw) :
    ∃ kept all,
      (Resolver.resolve ⟨Index.ofModules modules, raw.graph⟩ .never raw.dedupeCalls.calls).result = .ok kept ∧
      (Resolver.resolve ⟨Index.ofModules modules, raw.graph⟩ .never raw.calls).result = .ok all ∧
      (∀ ref, ref ∈ all ↔ ref ∈ kept ∨ raw.Merged (Index.ofModules modules) ref) ∧
      (kept = all ↔ ∀ ref, raw.Merged (Index.ofModules modules) ref → ref ∈ kept) ∧
      ((∀ call ∈ raw.calls, call.Legible) → raw.KeysTell ∧ kept = all) := by
  have hcomes : raw.ComesFrom ⟨Index.ofModules modules, marker⟩ fun type method =>
      type ∈ modules.flatMap (·.types) ∧ method ∈ type.methods :=
    Scanner.comesFrom_scanTypes (fun _ htype _ hmethod => ⟨htype, hmethod⟩) hraw
  have howned : raw.Owned := by
    refine Scanner.owned_of_comesFrom hcomes fun type method ⟨htype, hmethod⟩ => ?_
    obtain ⟨m, hm, htype⟩ := List.mem_flatMap.mp htype
    exact (hloaded m hm).holdsOwnMethods type htype method hmethod
  have hnames := hcomes.grammatical
  let r : Resolver := ⟨Index.ofModules modules, raw.graph⟩
  obtain ⟨kept, hkept, hnodup, hsorted, hmem⟩ := r.resolve_answers raw.dedupeCalls.calls
  obtain ⟨all, hall, hnodup', hsorted', hmem'⟩ := r.resolve_answers raw.calls
  have hiff : ∀ ref, ref ∈ all ↔ ref ∈ kept ∨ raw.Merged (Index.ofModules modules) ref := by
    intro ref
    rw [hmem', hmem]
    exact ScanResult.exists_reaches_iff
  -- both lists are sorted by spelling, so that they are equal once their members are
  have hspell : ∀ a ∈ all, ∀ b ∈ all, a.spell = b.spell → a = b := by
    intro a ha b hb
    obtain ⟨call, hcall, hreaches⟩ := (hmem' a).mp ha
    obtain ⟨call', hcall', hreaches'⟩ := (hmem' b).mp hb
    exact hnames.eq_of_reaches hcall hcall' hreaches hreaches'
  have heq : (∀ ref, raw.Merged (Index.ofModules modules) ref → ref ∈ kept) → kept = all := by
    intro hmerged
    refine (Resolver.eq_of_mem_iff hnodup' hnodup hsorted' hsorted hspell fun ref => ?_).symm
    rw [hiff]
    exact ⟨fun h => h.elim id (hmerged ref), .inl⟩
  refine ⟨kept, all, hkept, hall, hiff, ⟨?_, heq⟩, fun hlegible => ?_⟩
  · rintro rfl ref hmerged
    exact (hiff ref).mpr (.inr hmerged)
  · have htell := howned.keysTell hnames hlegible
    exact ⟨htell, heq fun ref hmerged => absurd hmerged htell.not_merged⟩

/-! ## Overloads

A generic method has two overloads, one with a parameter of a given text and one with the parameters `A` and `B`.
Each makes a job in terms of its own parameter, and they are called with different arguments. -/

namespace Overloads

open Workshop (shop made passing jobFor)

variable (first : String)

def run (parameters : List String) : Workshop.Worker := { Workshop.run with parameters }

def main : Workshop.Worker where
  name := "Main"
  tasks := [.callOverload "Work" "Run" "Int" [first], .callOverload "Work" "Run" "Text" ["A", "B"]]

def demo : Module := shop "Demo" [("Work", [run [first], run ["A", "B"], main first])]

def openJob (parameters : List String) : CallReference := made ⟨"Work", "Run", parameters⟩

def site (argument : String) (parameters : List String) : CallSite :=
  passing (Workshop.work "Main") ⟨"Work", "Run", parameters⟩ (.named argument [])

def raw : ScanResult where
  calls := [openJob [first], openJob ["A", "B"]]
  callSites := [site "Int" [first], site "Text" ["A", "B"]]

variable {first}

theorem loaded_demo : ∀ m ∈ [demo first], m.Loaded := List.forall_mem_singleton.mpr (Workshop.loaded _ _)

/-- The texts of the parameter that are looked at: one prints like two parameters, the other does not. -/
def texts : List String := ["A, B", "List<A, B>"]

theorem scan_demo : ∀ first ∈ texts,
    (Scanner.scanTypes ⟨Index.ofModules [demo first], "job"⟩ {} ([demo first].flatMap (·.types))).1
      = .ok (raw first) :=
  List.forall_mem_cons.mpr ⟨by cbv, List.forall_mem_singleton.mpr (by cbv)⟩

theorem legible_raw : ∀ call ∈ (raw "List<A, B>").calls, call.Legible := by
  have hword : ∀ parameters, ∀ p ∈ (openJob parameters).target.occurrences, Spelling.isWord p.name = true := by
    intro parameters p hp
    obtain rfl := List.mem_singleton.mp hp
    show Spelling.isWord "U" = true
    decide
  refine List.forall_mem_cons.mpr ⟨⟨⟨by decide, by decide, by decide⟩, hword _⟩, List.forall_mem_singleton.mpr ?_⟩
  exact ⟨⟨by decide, by decide, by decide⟩, hword _⟩

/-- Nothing is lost where the parameters are told apart. -/
theorem overloads_kept : (∀ m ∈ [demo "List<A, B>"], m.Loaded) ∧
    (Scanner.scanTypes ⟨Index.ofModules [demo "List<A, B>"], "job"⟩ {} ([demo "List<A, B>"].flatMap (·.types))).1
      = .ok (raw "List<A, B>") ∧
    ∃ all, (Resolver.resolve ⟨Index.ofModules [demo "List<A, B>"], (raw "List<A, B>").graph⟩ .never
        (raw "List<A, B>").dedupeCalls.calls).result = .ok all ∧
      (Resolver.resolve ⟨Index.ofModules [demo "List<A, B>"], (raw "List<A, B>").graph⟩ .never
        (raw "List<A, B>").calls).result = .ok all := by
  have hscan := scan_demo "List<A, B>" (List.mem_cons_of_mem _ (List.mem_singleton_self _))
  obtain ⟨kept, all, hkept, hall, -, -, hlegible⟩ := resolve_dedupeCalls loaded_demo hscan
  obtain ⟨-, rfl⟩ := hlegible legible_raw
  exact ⟨loaded_demo, hscan, kept, hkept, hall⟩

def closed (argument : String) : TypeRef := jobFor (.named argument [])

theorem comesTo_first : Walk.ComesTo (raw "A, B").graph (openJob ["A, B"]) [closed "Int"] := ⟨2, by decide, by decide⟩

theorem comesTo_second : Walk.ComesTo (raw "A, B").graph (openJob ["A", "B"]) [closed "Text"] :=
  ⟨2, by decide, by decide⟩

theorem dedupeCalls_raw : (raw "A, B").dedupeCalls.calls = [openJob ["A, B"]] := by decide

theorem resolve_kept (index : Index) :
    (Resolver.resolve ⟨index, (raw "A, B").graph⟩ .never (raw "A, B").dedupeCalls.calls).result
      = .ok [closed "Int"] := by
  rw [dedupeCalls_raw, Resolver.resolve_of_single_targets (.cons comesTo_first .nil)]
  exact congrArg Except.ok (Resolver.sortBySpelling_singleton _)

theorem resolve_all (index : Index) :
    (Resolver.resolve ⟨index, (raw "A, B").graph⟩ .never (raw "A, B").calls).result
      = .ok [closed "Int", closed "Text"] := by
  have hkept : distinctBy id [closed "Int", closed "Text"] = [closed "Int", closed "Text"] := by decide
  have hspell : (closed "Int").spell ≤ (closed "Text").spell := by decide
  have hresolved := @Resolver.resolve_of_single_targets ⟨index, (raw "A, B").graph⟩ _ _
    (.cons comesTo_first (.cons comesTo_second .nil))
  rwa [hkept, Resolver.sortBySpelling_pair, if_pos hspell] at hresolved

/-- **An instantiation is lost** where two overloads print alike: their call references have one key, and the
second is dropped with what it would come to. -/
theorem overload_lost : (∀ m ∈ [demo "A, B"], m.Loaded) ∧
    (Scanner.scanTypes ⟨Index.ofModules [demo "A, B"], "job"⟩ {} ([demo "A, B"].flatMap (·.types))).1
      = .ok (raw "A, B") ∧
    (raw "A, B").calls = [openJob ["A, B"], openJob ["A", "B"]] ∧
    (openJob ["A, B"]).key = (openJob ["A", "B"]).key ∧ (openJob ["A, B"]).entry ≠ (openJob ["A", "B"]).entry ∧
    (Resolver.resolve ⟨Index.ofModules [demo "A, B"], (raw "A, B").graph⟩ .never
      (raw "A, B").dedupeCalls.calls).result = .ok [closed "Int"] ∧
    (Resolver.resolve ⟨Index.ofModules [demo "A, B"], (raw "A, B").graph⟩ .never (raw "A, B").calls).result
      = .ok [closed "Int", closed "Text"] :=
  ⟨loaded_demo, scan_demo _ List.mem_cons_self, rfl, by decide, by decide, resolve_kept _, resolve_all _⟩

end Overloads

end JobClosure
