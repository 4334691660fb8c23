/-!
# Environments

Values for names. A name is bound at most once; binding it again replaces its value. Two
environments are the same when they give every name the same value, in whatever order they hold
their bindings.
-/

set_option autoImplicit false

namespace ArithTree

/-- Replaces the value of a name where it stands, or puts it at the end. -/
def setBinding (name : String) (value : Int64) :
    List (String × Int64) → List (String × Int64)
  | [] => [(name, value)]
  | (other, old) :: rest =>
      if other = name then (name, value) :: rest else (other, old) :: setBinding name value rest

theorem mem_map_fst_setBinding {name other : String} {value : Int64}
    {bindings : List (String × Int64)} :
    other ∈ (setBinding name value bindings).map Prod.fst ↔
      other = name ∨ other ∈ bindings.map Prod.fst := by
  induction bindings with
  | nil => simp [setBinding]
  | cons b rest ih =>
    obtain ⟨first, old⟩ := b
    by_cases h : first = name
    · simp [setBinding, h]
    · simp only [setBinding, h, if_false, List.map_cons, List.mem_cons, ih]
      exact or_left_comm

theorem nodup_setBinding {name : String} {value : Int64} {bindings : List (String × Int64)}
    (h : (bindings.map Prod.fst).Nodup) :
    ((setBinding name value bindings).map Prod.fst).Nodup := by
  induction bindings with
  | nil => simp [setBinding]
  | cons b rest ih =>
    obtain ⟨first, old⟩ := b
    simp only [List.map_cons, List.nodup_cons] at h
    by_cases hf : first = name
    · subst hf
      simpa [setBinding] using h
    · simp only [setBinding, hf, if_false, List.map_cons, List.nodup_cons]
      refine ⟨fun hm => ?_, ih h.2⟩
      rcases mem_map_fst_setBinding.1 hm with he | hr
      · exact hf he
      · exact h.1 hr

structure Environment where
  bindings : List (String × Int64) := []
  distinct : (bindings.map Prod.fst).Nodup := by simp

namespace Environment

def empty : Environment := {}

def get? (env : Environment) (name : String) : Option Int64 :=
  env.bindings.lookup name

def bind (env : Environment) (name : String) (value : Int64) : Environment :=
  ⟨setBinding name value env.bindings, nodup_setBinding env.distinct⟩

def bindAll (env : Environment) (bindings : List (String × Int64)) : Environment :=
  bindings.foldl (fun e b => e.bind b.1 b.2) env

def ofList (bindings : List (String × Int64)) : Environment :=
  empty.bindAll bindings

def sorted (env : Environment) : List (String × Int64) :=
  env.bindings.mergeSort fun a b => a.1 ≤ b.1

def agrees (a b : Environment) : Bool :=
  a.sorted = b.sorted

end Environment
end ArithTree
