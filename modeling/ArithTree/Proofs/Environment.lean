import ArithTree.Environment

/-!
# Environments as maps

Looking up a name finds the binding that is in the list. So the order of the bindings does not
matter, and binding distinct names one after the other keeps them as they are listed. Of several
bindings of one name the last is found.
-/

set_option autoImplicit false

namespace ArithTree

section Lookup

variable {α β : Type} [BEq α] [LawfulBEq α]

theorem lookup_eq_some_iff_mem {bindings : List (α × β)}
    (h : (bindings.map Prod.fst).Nodup) (name : α) (value : β) :
    bindings.lookup name = some value ↔ (name, value) ∈ bindings := by
  induction bindings with
  | nil => simp
  | cons b rest ih =>
    obtain ⟨first, old⟩ := b
    obtain ⟨hfirst, hrest⟩ := List.nodup_cons.mp h
    by_cases hname : name = first
    · subst hname
      have hno : (name, value) ∉ rest := fun hm => hfirst (List.mem_map.mpr ⟨_, hm, rfl⟩)
      simp [hno, eq_comm]
    · rw [List.lookup_cons, beq_false_of_ne hname, ih hrest]
      simp [hname]

theorem lookup_cons_eq [DecidableEq α] (name : α) (b : α × β) (rest : List (α × β)) :
    (b :: rest).lookup name = if name = b.1 then some b.2 else rest.lookup name := by
  by_cases h : name = b.1
  · rw [List.lookup_cons, beq_iff_eq.mpr h, if_pos h]
  · rw [List.lookup_cons, beq_false_of_ne h, if_neg h]

end Lookup

theorem lookup_perm {bindings other : List (String × Int64)} (hp : bindings.Perm other)
    (h : (other.map Prod.fst).Nodup) (name : String) :
    bindings.lookup name = other.lookup name := by
  have hb : (bindings.map Prod.fst).Nodup := (hp.map Prod.fst).nodup_iff.mpr h
  apply Option.ext
  intro value
  rw [lookup_eq_some_iff_mem hb, lookup_eq_some_iff_mem h, hp.mem_iff]

theorem setBinding_of_not_mem {name : String} (value : Int64) {bindings : List (String × Int64)}
    (h : name ∉ bindings.map Prod.fst) :
    setBinding name value bindings = bindings ++ [(name, value)] := by
  induction bindings with
  | nil => rfl
  | cons b rest ih =>
    obtain ⟨first, old⟩ := b
    have hfirst : first ≠ name := fun he => h (by simp [he])
    have hrest : name ∉ rest.map Prod.fst := fun hm => h (List.mem_cons_of_mem _ hm)
    rw [setBinding, if_neg hfirst, ih hrest, List.cons_append]

@[simp]
theorem lookup_setBinding (name other : String) (value : Int64)
    (bindings : List (String × Int64)) :
    (setBinding other value bindings).lookup name =
      if name = other then some value else bindings.lookup name := by
  induction bindings with
  | nil => rw [setBinding, lookup_cons_eq]
  | cons b rest ih =>
    obtain ⟨first, old⟩ := b
    by_cases hfirst : first = other
    · subst hfirst
      rw [setBinding, if_pos rfl, lookup_cons_eq, lookup_cons_eq]
      by_cases h : name = first <;> simp [h]
    · rw [setBinding, if_neg hfirst, lookup_cons_eq, lookup_cons_eq, ih]
      by_cases h : name = first
      · subst h
        simp [hfirst]
      · simp [h]

/-- The value of the last binding of a name in a list. -/
def lastBinding? (name : String) (bindings : List (String × Int64)) : Option Int64 :=
  (bindings.filter fun b => b.1 = name).getLast?.map Prod.snd

theorem lastBinding?_cons (name : String) (b : String × Int64)
    (bindings : List (String × Int64)) :
    lastBinding? name (b :: bindings) =
      (lastBinding? name bindings).or (if name = b.1 then some b.2 else none) := by
  by_cases h : b.1 = name
  · simp only [lastBinding?, List.filter_cons, h, decide_true, if_true, List.getLast?_cons]
    cases (bindings.filter fun b => b.1 = name).getLast? <;> simp
  · have hname : name ≠ b.1 := Ne.symm h
    simp [lastBinding?, h, hname]

namespace Environment

@[simp]
theorem get?_bind (env : Environment) (other : String) (value : Int64) (name : String) :
    (env.bind other value).get? name = if name = other then some value else env.get? name :=
  lookup_setBinding name other value env.bindings

@[simp]
theorem get?_bindAll (env : Environment) (bindings : List (String × Int64)) (name : String) :
    (env.bindAll bindings).get? name = (lastBinding? name bindings).or (env.get? name) := by
  induction bindings generalizing env with
  | nil => rfl
  | cons b rest ih =>
    show ((env.bind b.1 b.2).bindAll rest).get? name = _
    rw [ih, get?_bind, lastBinding?_cons, Option.or_assoc]
    congr 1
    by_cases h : name = b.1 <;> simp [h]

theorem bindings_bindAll (env : Environment) (bindings : List (String × Int64))
    (h : ((env.bindings ++ bindings).map Prod.fst).Nodup) :
    (env.bindAll bindings).bindings = env.bindings ++ bindings := by
  induction bindings generalizing env with
  | nil => exact (List.append_nil _).symm
  | cons b rest ih =>
    have hnew : b.1 ∉ env.bindings.map Prod.fst := by
      intro hm
      rw [List.map_append, List.map_cons] at h
      exact (List.nodup_append.mp h).2.2 _ hm _ List.mem_cons_self rfl
    have hbind : (env.bind b.1 b.2).bindings = env.bindings ++ [b] :=
      setBinding_of_not_mem b.2 hnew
    have hrest := ih (env.bind b.1 b.2) (by rw [hbind, List.append_assoc]; exact h)
    rw [hbind, List.append_assoc] at hrest
    exact hrest

theorem bindings_ofList {bindings : List (String × Int64)}
    (h : (bindings.map Prod.fst).Nodup) : (ofList bindings).bindings = bindings :=
  bindings_bindAll empty bindings h

def reorder (env : Environment) (order : List (String × Int64))
    (h : order.Perm env.bindings) : Environment :=
  ⟨order, (h.map Prod.fst).nodup_iff.mpr env.distinct⟩

theorem get?_ofList_of_perm {env : Environment} {bindings : List (String × Int64)}
    (h : bindings.Perm env.bindings) (name : String) :
    (ofList bindings).get? name = env.get? name := by
  have hb : (bindings.map Prod.fst).Nodup := (h.map Prod.fst).nodup_iff.mpr env.distinct
  rw [get?, bindings_ofList hb]
  exact lookup_perm h env.distinct name

end Environment
end ArithTree
