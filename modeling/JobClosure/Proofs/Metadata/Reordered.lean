import JobClosure.Proofs.Metadata.Written

/-!
# The order of clauses

The clauses of a type may stand in any order, and so may the clauses inside its methods, as long as clauses
with the same head keep the order that they have among themselves: the type that is read is the same, and
what cannot be read in one order cannot be read in any (`TypeDef.read_in_any_order`).

A clause is read by itself. What it is read as depends on the clause and on the scope of the type, and this
scope is settled by the `generic` clauses before any other clause is looked at. The part that a clause gives
tells the head of the clause (`TypePart.head`), so reordering clauses by their heads reorders the parts by
theirs. Every field of a definition is chosen among the parts with one head, where nothing has moved; only
the mark of an interface is asked of all parts, and there the order plays no role.

Which fault is reported does depend on the order: the first one is. That there is one does not.
-/

namespace JobClosure

/-! ## Lists in another order -/

/-- The same items in another order, in which items with the same key come in the order that they had. An item
without a key may be anywhere. -/
structure ReorderedBy {α : Type} (key : α → Option String) (items items' : List α) : Prop where
  perm : items.Perm items'
  sameKey : ∀ k, items.filter (key · == some k) = items'.filter (key · == some k)

namespace ReorderedBy

variable {ε α β : Type} {key : α → Option String} {items items' : List α}

theorem symm (h : ReorderedBy key items items') : ReorderedBy key items' items :=
  ⟨h.perm.symm, fun k => (h.sameKey k).symm⟩

theorem trans {items'' : List α} (h : ReorderedBy key items items') (h' : ReorderedBy key items' items'') :
    ReorderedBy key items items'' :=
  ⟨h.perm.trans h'.perm, fun k => (h.sameKey k).trans (h'.sameKey k)⟩

theorem cons (h : ReorderedBy key items items') (item : α) : ReorderedBy key (item :: items) (item :: items') :=
  ⟨h.perm.cons item, fun k => by rw [List.filter_cons, List.filter_cons, h.sameKey k]⟩

/-- An item can be taken to the front, past items with other keys. -/
theorem toFront {before after : List α} {item : α} (h : ∀ other ∈ before, key other ≠ key item) :
    ReorderedBy key (before ++ item :: after) (item :: (before ++ after)) := by
  refine ⟨List.perm_middle, fun k => ?_⟩
  rw [List.filter_append, List.filter_cons, List.filter_cons, List.filter_append]
  split
  · -- nothing before the item has its key, so it is the first one with this key in both lists
    rename_i hitem
    have hnone : before.filter (key · == some k) = [] := by
      refine List.filter_eq_nil_iff.mpr fun other hother hkey => h other hother ?_
      rw [beq_iff_eq.mp hkey, beq_iff_eq.mp hitem]
    rw [hnone]
    rfl
  · rfl

/-- What is chosen among the items with one key is chosen in the same order. -/
theorem filterMap_eq {choose : α → Option β} {k : String} (h : ReorderedBy key items items')
    (hchoose : ∀ item, key item ≠ some k → choose item = none) :
    items.filterMap choose = items'.filterMap choose := by
  have hkeyed (items : List α) :
      (items.filter (key · == some k)).filterMap choose = items.filterMap choose := by
    rw [List.filterMap_filter]
    refine List.filterMap_congr fun item _ => ?_
    split
    · rfl
    · rename_i hkey
      exact (hchoose item fun heq => hkey (beq_iff_eq.mpr heq)).symm
  rw [← hkeyed items, ← hkeyed items', h.sameKey k]

/-- **Reordered items give reordered results**, if a result tells the key of its item. -/
theorem mapM_eq_ok {f : α → Except ε β} {key' : β → Option String} {values : List β}
    (h : ReorderedBy key items items') (hkey : ∀ item value, f item = .ok value → key item = key' value)
    (hvalues : items.mapM f = .ok values) :
    ∃ values', items'.mapM f = .ok values' ∧ ReorderedBy key' values values' := by
  obtain ⟨values', hvalues', hperm⟩ := mapM_perm h.perm hvalues
  refine ⟨values', hvalues', hperm, fun k => ?_⟩
  have hkeep : ∀ item value, f item = .ok value → (key' value == some k) = (key item == some k) :=
    fun item value hvalue => by rw [hkey item value hvalue]
  -- the results with the key `k` are those of the items with this key, which are the same in both lists
  have hfilter := mapM_filter_eq_ok hkeep hvalues
  have hfilter' := mapM_filter_eq_ok hkeep hvalues'
  rw [h.sameKey k, hfilter'] at hfilter
  exact (Except.ok.inj hfilter).symm

end ReorderedBy

/-! ## Forms in another order -/

namespace Form

/-- The form of a type or of a method, and the same with its clauses in another order. -/
structure Reordered (form form' : Form) : Prop where
  head : form.head? = form'.head?
  name : form.operands.head? = form'.operands.head?
  clauses : ReorderedBy head? form.clauses form'.clauses

/-- A clause of a type, and the same clause; or a method, and the same with its clauses in another order. -/
def MethodReordered (clause clause' : Form) : Prop :=
  clause = clause' ∨ clause.head? = some "method" ∧ clause.Reordered clause'

/-- The form of a type, and the same with the clauses inside its methods in another order. -/
structure MethodsReordered (form form' : Form) : Prop where
  name : form.operands.head? = form'.operands.head?
  clauses : List.Forall₂ MethodReordered form.clauses form'.clauses

/-- The form of a type, and the same with its clauses and the clauses inside its methods in another order. -/
def ReorderedThroughout (form form' : Form) : Prop := ∃ between, form.MethodsReordered between ∧ between.Reordered form'

variable {form form' : Form}

theorem Reordered.symm (h : form.Reordered form') : form'.Reordered form := ⟨h.head.symm, h.name.symm, h.clauses.symm⟩

theorem MethodReordered.symm {clause clause' : Form} (h : clause.MethodReordered clause') :
    clause'.MethodReordered clause := by
  rcases h with rfl | ⟨hhead, h⟩
  · exact .inl rfl
  · exact .inr ⟨h.head ▸ hhead, h.symm⟩

theorem MethodsReordered.symm (h : form.MethodsReordered form') : form'.MethodsReordered form :=
  ⟨h.name.symm, (h.clauses.imp fun _ _ => MethodReordered.symm).flip⟩

theorem textOperand_of_name (h : form.operands.head? = form'.operands.head?) (operand : Operand) :
    form.textOperand 0 operand = form'.textOperand 0 operand := by
  rw [textOperand, Form.operand, ← List.head?_eq_getElem?, h, List.head?_eq_getElem?]
  rfl

/-- Only methods are changed, so clauses with another head are the same ones. -/
theorem filter_of_methodReordered {clauses clauses' : List Form} {head : String} (hhead : head ≠ "method")
    (h : List.Forall₂ MethodReordered clauses clauses') :
    clauses.filter (·.head? == some head) = clauses'.filter (·.head? == some head) := by
  induction h with
  | nil => rfl
  | @cons clause clause' _ _ hclause _ ih =>
    rcases hclause with rfl | ⟨hmethod, h⟩
    · rw [List.filter_cons, List.filter_cons, ih]
    · have hmethod' : clause'.head? = some "method" := h.head ▸ hmethod
      have hother : ¬(some "method" == some head) = true :=
        fun heq => hhead (Option.some.inj (beq_iff_eq.mp heq)).symm
      rw [List.filter_cons_of_neg (hmethod ▸ hother), List.filter_cons_of_neg (hmethod' ▸ hother), ih]

end Form

/-! ## Methods -/

/-- The head of the clauses that are read as the part. -/
def MethodPart.head : MethodPart → String
  | .generic _ => "generic"
  | .params _ => "params"
  | .body _ => "body"

theorem MethodPart.head?_of_read {clause : Form} {part : MethodPart} (h : read clause = .ok part) :
    clause.head? = some part.head := by
  unfold read at h
  split at h
  · rename_i hhead
    obtain ⟨_, -, rfl⟩ := map_eq_ok h
    exact hhead
  · rename_i hhead
    obtain ⟨_, -, rfl⟩ := map_eq_ok h
    exact hhead
  · rename_i hhead
    obtain rfl := Except.ok.inj h
    exact hhead
  · exact nomatch h

namespace Method

variable {declaringType module : String} {form form' : Form} {method : Method}

/-- A method is put together from parts in any order. -/
theorem ofParts_of_reordered {name : String} {parts parts' : List MethodPart}
    (h : ReorderedBy (fun part => some part.head) parts parts') :
    ofParts declaringType module name parts = ofParts declaringType module name parts' := by
  have hgeneric : parts.filterMap MethodPart.generic? = parts'.filterMap MethodPart.generic? :=
    h.filterMap_eq (k := "generic") fun part => by cases part <;> simp [MethodPart.head, MethodPart.generic?]
  have hparams : parts.filterMap MethodPart.params? = parts'.filterMap MethodPart.params? :=
    h.filterMap_eq (k := "params") fun part => by cases part <;> simp [MethodPart.head, MethodPart.params?]
  have hbody : parts.filterMap MethodPart.body? = parts'.filterMap MethodPart.body? :=
    h.filterMap_eq (k := "body") fun part => by cases part <;> simp [MethodPart.head, MethodPart.body?]
  simp only [ofParts, lastOf, hgeneric, hparams, hbody]

theorem read_of_reordered (hform : form.Reordered form') (h : read declaringType module form = .ok method) :
    read declaringType module form' = .ok method := by
  obtain ⟨hname, parts, hparts, hmethod⟩ := read_eq_ok_iff.mp h
  obtain ⟨parts', hparts', hreordered⟩ :=
    hform.clauses.mapM_eq_ok (fun _ _ hread => MethodPart.head?_of_read hread) hparts
  refine read_eq_ok_iff.mpr ⟨?_, parts', hparts', ?_⟩
  · rw [← Form.textOperand_of_name hform.name]
    exact hname
  · rw [← ofParts_of_reordered hreordered]
    exact hmethod

end Method

/-! ## Types -/

namespace TypePart

variable {module : String} {scope : Scope} {clause clause' : Form} {part : TypePart}

/-- The head of the clauses that are read as the part. -/
def head : TypePart → String
  | .generic _ => "generic"
  | .base _ => "base"
  | .interfaces _ => "interfaces"
  | .attributes _ => "attributes"
  | .interface => "interface"
  | .field _ => "field"
  | .method _ => "method"

theorem head?_of_read (h : read module scope clause = .ok part) : clause.head? = some part.head := by
  cases read_eq_ok_iff.mp h with
  | _ hhead => exact hhead

theorem read_of_methodReordered (hclause : clause.MethodReordered clause')
    (h : read module scope clause = .ok part) : read module scope clause' = .ok part := by
  rcases hclause with rfl | ⟨hmethod, hclause⟩
  · exact h
  · have hmethod' : clause'.head? = some "method" := hclause.head ▸ hmethod
    -- no other part than a method has this head
    have hpart := Option.some.inj ((head?_of_read h).symm.trans hmethod)
    cases read_eq_ok_iff.mp h with
    | method _ hdeclared => exact read_eq_ok_iff.mpr (.method hmethod' (Method.read_of_reordered hclause hdeclared))
    | _ => exact absurd hpart (by simp [head])

end TypePart

namespace TypeDef

variable {module : String} {form form' : Form} {type : TypeDef}

theorem readGenericParams_congr {clauses clauses' : List Form}
    (h : clauses.filter (·.head? == some "generic") = clauses'.filter (·.head? == some "generic")) :
    readGenericParams clauses = readGenericParams clauses' := by
  rw [readGenericParams, h, readGenericParams]

/-- A type is put together from parts in any order. -/
theorem ofParts_of_reordered {fullName : String} {genericParams : List String} {parts parts' : List TypePart}
    (h : ReorderedBy (fun part => some part.head) parts parts') :
    ofParts module fullName genericParams parts = ofParts module fullName genericParams parts' := by
  have hbase : parts.filterMap TypePart.base? = parts'.filterMap TypePart.base? :=
    h.filterMap_eq (k := "base") fun part => by cases part <;> simp [TypePart.head, TypePart.base?]
  have hinterfaces : parts.filterMap TypePart.interfaces? = parts'.filterMap TypePart.interfaces? :=
    h.filterMap_eq (k := "interfaces") fun part => by cases part <;> simp [TypePart.head, TypePart.interfaces?]
  have hattributes : parts.filterMap TypePart.attributes? = parts'.filterMap TypePart.attributes? :=
    h.filterMap_eq (k := "attributes") fun part => by cases part <;> simp [TypePart.head, TypePart.attributes?]
  have hmethods : parts.filterMap TypePart.method? = parts'.filterMap TypePart.method? :=
    h.filterMap_eq (k := "method") fun part => by cases part <;> simp [TypePart.head, TypePart.method?]
  have hfields : parts.filterMap TypePart.field? = parts'.filterMap TypePart.field? :=
    h.filterMap_eq (k := "field") fun part => by cases part <;> simp [TypePart.head, TypePart.field?]
  have hmark : parts.any TypePart.isInterface = parts'.any TypePart.isInterface := h.perm.any_eq
  simp only [ofParts, lastOf, hbase, hinterfaces, hattributes, hmethods, hfields, hmark]

theorem read_of_reordered (hform : form.Reordered form') (h : read module form = .ok type) :
    read module form' = .ok type := by
  obtain ⟨hname, hgeneric, parts, hparts, htype⟩ := read_eq_ok_iff.mp h
  obtain ⟨parts', hparts', hreordered⟩ :=
    hform.clauses.mapM_eq_ok (fun _ _ hread => TypePart.head?_of_read hread) hparts
  -- `hparts'` is about the scope of the first form; the second one declares the same parameters
  refine read_eq_ok_iff.mpr ⟨?_, ?_, parts', hparts', ?_⟩
  · rw [← Form.textOperand_of_name hform.name]
    exact hname
  · rw [← readGenericParams_congr (hform.clauses.sameKey "generic")]
    exact hgeneric
  · rw [← ofParts_of_reordered hreordered]
    exact htype

/-- The clauses of the type stay where they are, so the parts do not even move. -/
theorem read_of_methodsReordered (hform : form.MethodsReordered form') (h : read module form = .ok type) :
    read module form' = .ok type := by
  obtain ⟨hname, hgeneric, parts, hparts, htype⟩ := read_eq_ok_iff.mp h
  refine read_eq_ok_iff.mpr ⟨?_, ?_, parts, ?_, htype⟩
  · rw [← Form.textOperand_of_name hform.name]
    exact hname
  · rw [← readGenericParams_congr (Form.filter_of_methodReordered (by decide) hform.clauses)]
    exact hgeneric
  · refine mapM_eq_ok_of_forall₂ (hform.clauses.imp fun clause clause' hclause part hpart => ?_) hparts
    exact TypePart.read_of_methodReordered hclause hpart

theorem read_reordered_iff (hform : form.Reordered form') :
    read module form = .ok type ↔ read module form' = .ok type :=
  ⟨read_of_reordered hform, read_of_reordered hform.symm⟩

theorem read_methodsReordered_iff (hform : form.MethodsReordered form') :
    read module form = .ok type ↔ read module form' = .ok type :=
  ⟨read_of_methodsReordered hform, read_of_methodsReordered hform.symm⟩

/-- **The order of clauses is free.** The form of a type and a reordering of it are read as the same type, or
neither can be read. In particular the first clause that declares generic parameters may come after clauses
that spell types with them: nothing changes if it is put in front of all. -/
theorem read_in_any_order (module : String) :
    (∀ form form', form.ReorderedThroughout form' →
      ∀ type, read module form = .ok type ↔ read module form' = .ok type) ∧
    ∀ head name before generic after, generic.head? = some "generic" →
      (∀ clause ∈ before, clause.head? ≠ some "generic") →
      ∀ type, read module (.list (head :: name :: (before ++ generic :: after))) = .ok type ↔
        read module (.list (head :: name :: generic :: (before ++ after))) = .ok type := by
  constructor
  · rintro form form' ⟨between, hmethods, hclauses⟩ type
    calc read module form = .ok type
        ↔ read module between = .ok type := read_methodsReordered_iff hmethods
      _ ↔ read module form' = .ok type := read_reordered_iff hclauses
  · intro head name before generic after hgeneric hbefore type
    refine read_reordered_iff ⟨rfl, rfl, .toFront fun clause hclause => ?_⟩
    rw [hgeneric]
    exact hbefore clause hclause

/-! A box whose base, interface and field are spelled before their parameter is declared, with a method that
starts with its body. -/

namespace Unsorted

def parameter : TypeArg := .param ⟨"M.Box", "T", false⟩

def put : Method where
  id := ⟨"M.Box", "Put", ["!T", "!!U"]⟩
  genericParams := ["U"]
  body := some [.list [.symbol "ret"]]
  module := "M"

def box : TypeDef where
  fullName := "M.Box"
  genericParams := ["T"]
  base := some ⟨"M.Base", [parameter]⟩
  interfaces := [⟨"M.ICell", [parameter]⟩]
  methods := [put]
  fields := [⟨"item", ⟨"M.Cell", [parameter]⟩⟩]
  module := "M"

/-- The form of a box with these clauses. -/
def boxForm (clauses : List Form) : Form := .list (.symbol "type" :: .text "M.Box" :: clauses)

def declaration : Form := textClause "generic" ["T"]

def uses : List Form :=
  [textClause "base" ["M.Base<!T>"], textClause "interfaces" ["M.ICell<!T>"],
    textClause "field" ["item", "M.Cell<!T>"]]

def body : Form := .list [.symbol "body", .list [.symbol "ret"]]

/-- The method with its clauses in the order body, parameters, generic parameters. -/
def putBackwards : Form :=
  .list [.symbol "method", .text "Put", body, textClause "params" ["!T", "!!U"], textClause "generic" ["U"]]

theorem spelled_box : box.Spelled "M" := by
  have hspelled : ∀ name, Spelling.isName name = true →
      (TypeArg.named name [parameter]).Spellable ∧ (TypeArg.named name [parameter]).Within box.scope := by
    intro name hname
    refine ⟨⟨hname, rfl, trivial⟩, fun p hp => ?_⟩
    rw [List.mem_singleton.mp hp]
    exact ⟨rfl, List.mem_singleton_self _⟩
  refine ⟨rfl, ?_, ?_⟩
  · have hrefs : box.refs = [⟨"M.Base", [parameter]⟩, ⟨"M.ICell", [parameter]⟩, ⟨"M.Cell", [parameter]⟩] := rfl
    rw [hrefs, List.forall_mem_cons, List.forall_mem_cons, List.forall_mem_singleton]
    exact ⟨hspelled _ rfl, hspelled _ rfl, hspelled _ rfl⟩
  · intro method hmethod
    rw [List.mem_singleton.mp hmethod]
    exact ⟨rfl, rfl⟩

theorem reordered_put : putBackwards.Reordered put.toForm := by
  refine ⟨rfl, rfl, ?_⟩
  have hgeneric : ReorderedBy Form.head?
      ([body, textClause "params" ["!T", "!!U"]] ++ textClause "generic" ["U"] :: [])
      (textClause "generic" ["U"] :: ([body, textClause "params" ["!T", "!!U"]] ++ [])) :=
    .toFront (by decide)
  have hparams : ReorderedBy Form.head? ([body] ++ textClause "params" ["!T", "!!U"] :: [])
      (textClause "params" ["!T", "!!U"] :: ([body] ++ [])) :=
    .toFront (by decide)
  exact hgeneric.trans (hparams.cons _)

theorem not_generic_uses : ∀ clause ∈ uses, clause.head? ≠ some "generic" := by decide

theorem reordered_box : (boxForm (uses ++ putBackwards :: [declaration])).ReorderedThroughout box.toForm := by
  refine ⟨boxForm ((uses ++ [put.toForm]) ++ declaration :: []), ⟨rfl, ?_⟩, ⟨rfl, rfl, ?_⟩⟩
  · exact .cons (.inl rfl) (.cons (.inl rfl) (.cons (.inl rfl)
      (.cons (.inr ⟨rfl, reordered_put⟩) (.cons (.inl rfl) .nil))))
  · exact .toFront (by decide)

theorem box_in_any_order :
    (boxForm (uses ++ putBackwards :: [declaration])).ReorderedThroughout box.toForm ∧
      read "M" (boxForm (uses ++ putBackwards :: [declaration])) = .ok box ∧
    (∀ clause ∈ uses, clause.head? ≠ some "generic") ∧
      read "M" (boxForm (uses ++ declaration :: [put.toForm])) = .ok box := by
  have hbox : read "M" box.toForm = .ok box := read_toForm spelled_box
  refine ⟨reordered_box, ?_, not_generic_uses, ?_⟩
  · exact ((read_in_any_order "M").1 _ _ reordered_box box).mpr hbox
  · exact ((read_in_any_order "M").2 _ _ uses declaration [put.toForm] rfl not_generic_uses box).mpr hbox

end Unsorted

end TypeDef

end JobClosure
