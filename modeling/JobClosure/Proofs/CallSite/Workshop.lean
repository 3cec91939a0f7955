import JobClosure.CallSite.Basic
import JobClosure.Proofs.Metadata.RoundTrip

/-!
# Workshops

A workshop is a module in which methods make jobs and call each other. `Job` has one generic parameter and
implements `Runs`, which has the attribute `job`; the other types declare methods whose bodies are lists of tasks.
Whatever the methods are and do, a workshop can be written down and is read back, so it is a loaded module
(`Workshop.loaded`).
-/

namespace JobClosure.Workshop

open Form (LegibleAll PlainAll legibleAll_iff plainAll_iff)

/-- What a method of a workshop does. -/
inductive Task
  | make (target : String)
  | call (type name argument : String)
  /-- A call of the overload with the given parameters. -/
  | callOverload (type name argument : String) (parameters : List String)

/-- The instruction for a task. -/
def Task.form : Task → Form
  | make target => .list [.symbol "newobj", .text target]
  | call type name argument => .list [.symbol "call", .text type, .text name, .list [.text argument]]
  | callOverload type name argument parameters =>
    .list [.symbol "call", .text type, .text name, .list [.text argument], .list (parameters.map .text)]

structure Worker where
  name : String
  parameters : List String := []
  genericParams : List String := []
  tasks : List Task

/-- The method of a worker, declared by a type. -/
def Worker.method (module type : String) (worker : Worker) : Method where
  id := ⟨type, worker.name, worker.parameters⟩
  genericParams := worker.genericParams
  body := some (worker.tasks.map Task.form)
  module

/-- The type that declares the methods of some workers. -/
def declaring (module type : String) (workers : List Worker) : TypeDef where
  fullName := type
  methods := workers.map (Worker.method module type)
  module

def runs (module : String) : TypeDef where
  fullName := "Runs"
  attributes := ["job"]
  isInterface := true
  module

def job (module : String) : TypeDef where
  fullName := "Job"
  genericParams := ["A"]
  interfaces := [⟨"Runs", []⟩]
  module

/-- The workshop with types that declare the methods of workers. -/
def shop (name : String) (types : List (String × List Worker)) : Module where
  name
  types := runs name :: job name :: types.map fun entry => declaring name entry.1 entry.2

/-! ## Workshops are loaded -/

variable {name : String} {types : List (String × List Worker)}

theorem forall_shop {p : TypeDef → Prop} (hruns : p (runs name)) (hjob : p (job name))
    (hdeclaring : ∀ entry ∈ types, p (declaring name entry.1 entry.2)) : ∀ type ∈ (shop name types).types, p type :=
  List.forall_mem_cons.mpr ⟨hruns, List.forall_mem_cons.mpr ⟨hjob, List.forall_mem_map.mpr hdeclaring⟩⟩

theorem legible_form (task : Task) : task.form.Legible ∧ task.form.Plain := by
  cases task with
  | make target => exact ⟨⟨rfl, trivial, trivial⟩, trivial, trivial, trivial⟩
  | call type name argument =>
    exact ⟨⟨rfl, trivial, trivial, ⟨trivial, trivial⟩, trivial⟩, trivial, trivial, trivial, ⟨trivial, trivial⟩, trivial⟩
  | callOverload type name argument parameters =>
    have hlegible : LegibleAll (parameters.map .text) :=
      legibleAll_iff.mpr (List.forall_mem_map.mpr fun _ _ => trivial)
    have hplain : PlainAll (parameters.map .text) := plainAll_iff.mpr (List.forall_mem_map.mpr fun _ _ => trivial)
    exact ⟨⟨rfl, trivial, trivial, ⟨trivial, trivial⟩, hlegible, trivial⟩,
      trivial, trivial, trivial, ⟨trivial, trivial⟩, hplain, trivial⟩

theorem spelled_declaring (module type : String) (workers : List Worker) :
    (declaring module type workers).Spelled module :=
  ⟨rfl, nofun, List.forall_mem_map.mpr fun _ _ => ⟨rfl, rfl⟩⟩

theorem plainBodies_declaring (module type : String) (workers : List Worker) :
    (declaring module type workers).PlainBodies := by
  refine List.forall_mem_map.mpr fun worker _ => ?_
  rintro body ⟨rfl⟩
  exact List.forall_mem_map.mpr fun task _ => legible_form task

theorem spelled (name : String) (types : List (String × List Worker)) : (shop name types).Spelled := by
  refine forall_shop ⟨rfl, nofun, nofun⟩ ⟨rfl, fun ref href => ?_, nofun⟩ fun entry _ => spelled_declaring _ _ _
  rw [List.mem_singleton.mp href]
  exact ⟨⟨rfl, trivial⟩, nofun⟩

/-- **A workshop can be written down and is read back.** -/
theorem writable (name : String) (types : List (String × List Worker)) : (shop name types).Writable where
  spelled := spelled name types
  bodies := forall_shop nofun nofun fun _ _ => plainBodies_declaring _ _ _

/-- **A workshop is a loaded module.** -/
theorem loaded (name : String) (types : List (String × List Worker)) : (shop name types).Loaded :=
  (writable name types).loaded

/-! ## What is found in a workshop

The only generic parameter of a method is called `U` here. -/

/-- The worker that makes a job in terms of its own parameter. -/
def run : Worker where
  name := "Run"
  genericParams := ["U"]
  tasks := [.make "Job<!!U>"]

/-- A method of `Work` without parameters. -/
def work (name : String) : MethodId := ⟨"Work", name, []⟩

def own (method : MethodId) : Parameter := ⟨method.text, "U", true⟩

/-- The job that a method makes in terms of its own parameter. -/
def made (method : MethodId) : CallReference := ⟨method, .named "Job" [.param (own method)], "Job<!!U>::.ctor"⟩

/-- A call with an argument. -/
def passing (caller callee : MethodId) (argument : TypeArg) : CallSite := ⟨caller, callee, [(own callee, argument)]⟩

/-- The job for an argument. -/
def jobFor (argument : TypeArg) : TypeRef := ⟨"Job", [argument]⟩

end JobClosure.Workshop
