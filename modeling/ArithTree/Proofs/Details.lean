import ArithTree.Console
import ArithTree.Proofs.Environment
import Mathlib.Data.List.Induction
import Mathlib.Data.List.Nodup

/-!
# The details of a report as a map

A report holds each detail at most once, with the value that was attached last. What is printed
depends on nothing else: the details are sorted by rank, and no two of them have the same rank. So
neither the way in which a report was built nor the order in which its details are gone through
can be seen.
-/

set_option autoImplicit false

namespace ArithTree

theorem Detail.rank_injective {a b : Detail} (h : a.rank = b.rank) : a = b := by
  cases a <;> cases b <;> cases h <;> rfl

namespace Report

theorem map_fst_put (detail : Detail) (value : String) (details : List (Detail × String)) :
    (put detail value details).map Prod.fst =
      if detail ∈ details.map Prod.fst then details.map Prod.fst
      else details.map Prod.fst ++ [detail] := by
  induction details with
  | nil => rfl
  | cons d rest ih =>
    obtain ⟨first, old⟩ := d
    by_cases h : first = detail
    · subst h
      simp [put]
    · have hne : detail ≠ first := Ne.symm h
      rw [put, if_neg h, List.map_cons, ih, List.map_cons]
      by_cases hmem : detail ∈ rest.map Prod.fst
      · rw [if_pos hmem, if_pos (List.mem_cons_of_mem _ hmem)]
      · rw [if_neg hmem, if_neg (List.not_mem_cons_of_ne_of_not_mem hne hmem), List.cons_append]

theorem nodup_put {detail : Detail} {value : String} {details : List (Detail × String)}
    (h : (details.map Prod.fst).Nodup) : ((put detail value details).map Prod.fst).Nodup := by
  rw [map_fst_put]
  by_cases hmem : detail ∈ details.map Prod.fst
  · rw [if_pos hmem]
    exact h
  · rw [if_neg hmem, ← List.concat_eq_append]
    exact List.Nodup.concat hmem h

@[simp]
theorem lookup_put (detail other : Detail) (value : String) (details : List (Detail × String)) :
    (put other value details).lookup detail =
      if detail = other then some value else details.lookup detail := by
  induction details with
  | nil => rw [put, lookup_cons_eq]
  | cons d rest ih =>
    obtain ⟨first, old⟩ := d
    by_cases hfirst : first = other
    · subst hfirst
      rw [put, if_pos rfl, lookup_cons_eq, lookup_cons_eq]
      by_cases h : detail = first <;> simp [h]
    · rw [put, if_neg hfirst, lookup_cons_eq, lookup_cons_eq, ih]
      by_cases h : detail = first
      · subst h
        simp [hfirst]
      · simp [h]

def Distinct (r : Report) : Prop :=
  (r.details.map Prod.fst).Nodup

theorem Distinct.attach {r : Report} (h : r.Distinct) (detail : Detail) (value : String) :
    (r.attach detail value).Distinct :=
  nodup_put h

@[simp]
theorem detail?_attach (r : Report) (detail other : Detail) (value : String) :
    (r.attach other value).detail? detail =
      if detail = other then some value else r.detail? detail :=
  lookup_put detail other value r.details

theorem Distinct.mem_details_iff {r : Report} (h : r.Distinct) {detail : Detail}
    {value : String} : (detail, value) ∈ r.details ↔ r.detail? detail = some value :=
  (lookup_eq_some_iff_mem h detail value).symm

/-- A report that starts without details and gets these one after the other. -/
def built (kind : Kind) (message : String) (attached : List (Detail × String)) : Report :=
  attached.foldl (fun r d => r.attach d.1 d.2) ⟨kind, message, []⟩

section Built

variable (kind : Kind) (message : String)

theorem built_append (attached : List (Detail × String)) (last : Detail × String) :
    built kind message (attached ++ [last]) =
      (built kind message attached).attach last.1 last.2 := by
  rw [built, List.foldl_append]
  rfl

theorem distinct_built (attached : List (Detail × String)) :
    (built kind message attached).Distinct := by
  induction attached using List.reverseRecOn with
  | nil => exact List.nodup_nil
  | append_singleton before last ih =>
    rw [built_append]
    exact ih.attach last.1 last.2

theorem kind_built (attached : List (Detail × String)) :
    (built kind message attached).kind = kind ∧
      (built kind message attached).message = message := by
  induction attached using List.reverseRecOn with
  | nil => exact ⟨rfl, rfl⟩
  | append_singleton before last ih =>
    rw [built_append]
    exact ih

end Built

/-- The value that a detail had the last time it was attached. -/
def LastAttached (attached : List (Detail × String)) (detail : Detail) (value : String) : Prop :=
  ∃ before after, attached = before ++ (detail, value) :: after ∧
    ∀ other ∈ after, other.1 ≠ detail

theorem lastAttached_append_iff {attached : List (Detail × String)} {last : Detail × String}
    {detail : Detail} {value : String} :
    LastAttached (attached ++ [last]) detail value ↔
      last = (detail, value) ∨ last.1 ≠ detail ∧ LastAttached attached detail value := by
  constructor
  · rintro ⟨before, after, h, hafter⟩
    rcases after.eq_nil_or_concat with rfl | ⟨between, final, rfl⟩
    · have hlast : [last] = [(detail, value)] := (List.append_inj' h rfl).2
      exact .inl (List.head_eq_of_cons_eq hlast)
    · rw [List.concat_eq_append] at h hafter
      rw [← List.cons_append, ← List.append_assoc] at h
      obtain ⟨hattached, hlast⟩ := List.append_inj' h rfl
      obtain rfl : last = final := List.head_eq_of_cons_eq hlast
      refine .inr ⟨hafter last (by simp), before, between, hattached, ?_⟩
      exact fun other hm => hafter other (List.mem_append_left _ hm)
  · rintro (rfl | ⟨hne, before, after, rfl, hafter⟩)
    · exact ⟨attached, [], rfl, by simp⟩
    · refine ⟨before, after ++ [last], by simp, ?_⟩
      exact List.forall_mem_append.mpr ⟨hafter, by simpa using hne⟩

theorem detail?_built_iff (kind : Kind) (message : String) (attached : List (Detail × String))
    (detail : Detail) (value : String) :
    (built kind message attached).detail? detail = some value ↔
      LastAttached attached detail value := by
  -- Induction from the end of the list, as the last value decides.
  induction attached using List.reverseRecOn with
  | nil => simp [built, detail?, LastAttached]
  | append_singleton before last ih =>
    obtain ⟨other, new⟩ := last
    rw [built_append, detail?_attach, lastAttached_append_iff]
    by_cases h : detail = other
    · subst h
      simp
    · have hne : other ≠ detail := Ne.symm h
      rw [if_neg h, ih]
      simp [hne]

theorem detail?_built_eq_none_iff (kind : Kind) (message : String)
    (attached : List (Detail × String)) (detail : Detail) :
    (built kind message attached).detail? detail = none ↔ ∀ d ∈ attached, d.1 ≠ detail := by
  induction attached using List.reverseRecOn with
  | nil => simp [built, detail?]
  | append_singleton before last ih =>
    rw [built_append, detail?_attach, List.forall_mem_append, List.forall_mem_singleton, ← ih]
    by_cases h : detail = last.1
    · simp [h]
    · simp [h, Ne.symm h]

def present (r : Report) : List (Detail × String) :=
  Detail.all.filterMap fun detail => (r.detail? detail).map (Prod.mk detail)

theorem mem_present_iff {r : Report} {detail : Detail} {value : String} :
    (detail, value) ∈ r.present ↔ r.detail? detail = some value := by
  have hall : detail ∈ Detail.all := by cases detail <;> decide
  constructor
  · intro h
    obtain ⟨other, _, ho⟩ := List.mem_filterMap.mp h
    obtain ⟨found, hfound, he⟩ := Option.map_eq_some_iff.mp ho
    cases he
    exact hfound
  · intro h
    exact List.mem_filterMap.mpr ⟨detail, hall, by rw [h]; rfl⟩

def Before (a b : Detail × String) : Prop :=
  a.1.rank < b.1.rank

theorem nodup_of_before {details : List (Detail × String)} (h : details.Pairwise Before) :
    details.Nodup := by
  refine h.imp ?_
  rintro a _ hlt rfl
  exact Nat.lt_irrefl _ hlt

theorem pairwise_present (r : Report) : r.present.Pairwise Before := by
  have hall : Detail.all.Pairwise fun a b => a.rank < b.rank := by decide
  refine List.pairwise_filterMap.mpr (hall.imp ?_)
  intro a b hab x hx y hy
  obtain ⟨_, _, rfl⟩ := Option.map_eq_some_iff.mp hx
  obtain ⟨_, _, rfl⟩ := Option.map_eq_some_iff.mp hy
  exact hab

theorem Distinct.pairwise_shown {r : Report} (h : r.Distinct) : r.shown.Pairwise Before := by
  have hp : r.shown.Perm r.details := List.mergeSort_perm _ _
  have hsorted : r.shown.Pairwise fun a b => decide (a.1.rank ≤ b.1.rank) = true :=
    List.pairwise_mergeSort (fun a b c => by simpa using Nat.le_trans)
      (fun a b => by simpa using Nat.le_total _ _) r.details
  have hne : r.shown.Pairwise fun a b => a.1 ≠ b.1 :=
    List.pairwise_map.mp ((hp.map Prod.fst).nodup_iff.mpr h)
  refine hsorted.imp₂ ?_ hne
  intro a b hle hne
  exact Nat.lt_of_le_of_ne (of_decide_eq_true hle) fun he => hne (Detail.rank_injective he)

theorem Distinct.shown_eq_present {r : Report} (h : r.Distinct) : r.shown = r.present := by
  have hshown := h.pairwise_shown
  have hpresent := r.pairwise_present
  have hmem : ∀ d, d ∈ r.shown ↔ d ∈ r.present := by
    rintro ⟨detail, value⟩
    rw [mem_present_iff, ← h.mem_details_iff]
    exact (List.mergeSort_perm _ _).mem_iff
  refine List.Perm.eq_of_pairwise ?_ hshown hpresent
    ((List.perm_ext_iff_of_nodup (nodup_of_before hshown) (nodup_of_before hpresent)).mpr hmem)
  intro a b _ _ hab hba
  exact absurd hab (Nat.lt_asymm hba)

/-- The same report with its details in another order. -/
def reorder (r : Report) (order : List (Detail × String)) : Report :=
  { r with details := order }

theorem Distinct.reorder {r : Report} (h : r.Distinct) {order : List (Detail × String)}
    (hp : order.Perm r.details) : (r.reorder order).Distinct :=
  (hp.map Prod.fst).nodup_iff.mpr h

theorem detail?_reorder {r : Report} (h : r.Distinct) {order : List (Detail × String)}
    (hp : order.Perm r.details) (detail : Detail) :
    (r.reorder order).detail? detail = r.detail? detail := by
  apply Option.ext
  intro value
  rw [← h.mem_details_iff, ← (h.reorder hp).mem_details_iff]
  exact hp.mem_iff

end Report

open Report

namespace Console

def headingLine : Kind → String → Output
  | .undefinedVariable, message =>
      .line [⟨[.red], "Undefined Variable"⟩, ⟨[.red], ": "⟩, ⟨[], message⟩]
  | .divisionByZero, message =>
      .line [⟨[.red], "Division By Zero"⟩, ⟨[.red], ": "⟩, ⟨[], message⟩]
  | .config, message => .line [⟨[.yellow], "Malformed Config"⟩, ⟨[.yellow], ": "⟩, ⟨[], message⟩]
  | .file, message => .line [⟨[.yellow], "File Error"⟩, ⟨[.yellow], ": "⟩, ⟨[], message⟩]

def headingText : Kind → String → String
  | .undefinedVariable, message =>
      "\x1b[31mUndefined Variable\x1b[31m: " ++ message ++ "\x1b[0m\n"
  | .divisionByZero, message => "\x1b[31mDivision By Zero\x1b[31m: " ++ message ++ "\x1b[0m\n"
  | .config, message => "\x1b[33mMalformed Config\x1b[33m: " ++ message ++ "\x1b[0m\n"
  | .file, message => "\x1b[33mFile Error\x1b[33m: " ++ message ++ "\x1b[0m\n"

/-- The details that are there under their labels, in the order in which they are printed. -/
def labelled (detail? : Detail → Option String) : List (String × String) :=
  [(Detail.variable, "Variable"), (.stage, "Stage"), (.expression, "Expression"),
    (.suggestion, "Suggestion")].filterMap fun (detail, label) => (detail? detail).map (label, ·)

/-- The lines of a report, spelled out. -/
def errorLines (kind : Kind) (message : String) (detail? : Detail → Option String) :
    List Output :=
  headingLine kind message :: (labelled detail?).map fun (label, value) =>
    .line [⟨[.gray], "    "⟩, ⟨[.gray], label⟩, ⟨[.gray], ": "⟩, ⟨[], value⟩]

def errorText (kind : Kind) (message : String) (detail? : Detail → Option String) : String :=
  headingText kind message ++ String.join ((labelled detail?).map fun (label, value) =>
    "\x1b[90m    \x1b[90m" ++ label ++ "\x1b[90m: " ++ value ++ "\x1b[0m\n")

theorem heading_eq (r : Report) : heading r = headingLine r.kind r.message := by
  obtain ⟨kind, message, details⟩ := r
  cases kind <;> rfl

theorem labelled_eq_present (r : Report) :
    labelled r.detail? = r.present.map fun d => (d.1.label, d.2) := by
  rw [present, List.map_filterMap]
  simp only [Option.map_map]
  rfl

theorem reportLines_eq {r : Report} (h : r.Distinct) :
    reportLines r = errorLines r.kind r.message r.detail? := by
  rw [reportLines, h.shown_eq_present, heading_eq, errorLines, labelled_eq_present, List.map_map]
  rfl

theorem render_headingLine (time : String) (kind : Kind) (message : String) :
    (headingLine kind message).render time = headingText kind message := by
  cases kind <;> rfl

theorem render_errorLines (time : String) (kind : Kind) (message : String)
    (detail? : Detail → Option String) :
    render time (errorLines kind message detail?) = errorText kind message detail? := by
  rw [errorLines, render_cons, render_headingLine, errorText, render, List.map_map]
  rfl

end Console

/-- However a report is built, each of its details has the value that was attached last, and none
where none was attached. In whatever order the details are gone through, the heading is printed
and then one line for each detail there is, in one fixed order and with these values. So the same
last values give the same text. -/
theorem report_shows_last_attached (kind : Kind) (message : String)
    (attached : List (Detail × String)) :
    (∀ detail value, (built kind message attached).detail? detail = some value ↔
      LastAttached attached detail value) ∧
    (∀ detail, (built kind message attached).detail? detail = none ↔
      ∀ d ∈ attached, d.1 ≠ detail) ∧
    (∀ order, order.Perm (built kind message attached).details →
      Console.reportLines ((built kind message attached).reorder order) =
        Console.errorLines kind message (built kind message attached).detail? ∧
      ∀ time, Console.render time
          (Console.reportLines ((built kind message attached).reorder order)) =
        Console.errorText kind message (built kind message attached).detail?) ∧
    (∀ other order order',
      (∀ detail value, LastAttached other detail value ↔ LastAttached attached detail value) →
      order.Perm (built kind message attached).details →
      order'.Perm (built kind message other).details →
      ∀ time, Console.render time
          (Console.reportLines ((built kind message attached).reorder order)) =
        Console.render time (Console.reportLines ((built kind message other).reorder order'))) := by
  have hprinted : ∀ given order, order.Perm (built kind message given).details →
      Console.reportLines ((built kind message given).reorder order) =
        Console.errorLines kind message (built kind message given).detail? := by
    intro given order hp
    have hdistinct := distinct_built kind message given
    have hsame := funext (detail?_reorder hdistinct hp)
    obtain ⟨hkind, hmessage⟩ := kind_built kind message given
    rw [Console.reportLines_eq (hdistinct.reorder hp), hsame]
    exact congrArg₂ (Console.errorLines · · _) hkind hmessage
  refine ⟨detail?_built_iff kind message attached, detail?_built_eq_none_iff kind message attached,
    fun order hp => ⟨hprinted attached order hp, fun time => ?_⟩, ?_⟩
  · rw [hprinted attached order hp, Console.render_errorLines]
  · intro other order order' hsame hp hp' time
    have hdetails : (built kind message other).detail? = (built kind message attached).detail? := by
      funext detail
      apply Option.ext
      intro value
      rw [detail?_built_iff, detail?_built_iff, hsame]
    rw [hprinted attached order hp, hprinted other order' hp', hdetails]

theorem report_shows_last_attached_replaced :
    let attached := [(Detail.suggestion, "a"), (.variable, "x"), (.suggestion, "b"), (.stage, "s")]
    let other := [(Detail.stage, "t"), (.variable, "x"), (.stage, "s"), (.suggestion, "b")]
    let order := [(Detail.stage, "s"), (.variable, "x"), (.suggestion, "b")]
    let order' := [(Detail.suggestion, "b"), (.variable, "x"), (.stage, "s")]
    let text := "\x1b[33mFile Error\x1b[33m: m\x1b[0m\n"
      ++ "\x1b[90m    \x1b[90mVariable\x1b[90m: x\x1b[0m\n"
      ++ "\x1b[90m    \x1b[90mStage\x1b[90m: s\x1b[0m\n"
      ++ "\x1b[90m    \x1b[90mSuggestion\x1b[90m: b\x1b[0m\n"
    order.Perm (built .file "m" attached).details ∧
      order'.Perm (built .file "m" other).details ∧
      (∀ detail value, LastAttached other detail value ↔ LastAttached attached detail value) ∧
      ∀ time, Console.render time
          (Console.reportLines ((built .file "m" attached).reorder order)) = text ∧
        Console.render time (Console.reportLines ((built .file "m" other).reorder order')) =
          text := by
  intro attached other order order' text
  obtain ⟨hlast, _, hprinted, hsame⟩ := report_shows_last_attached .file "m" attached
  obtain ⟨hlast', _⟩ := report_shows_last_attached .file "m" other
  have hp : order.Perm (built .file "m" attached).details := List.reverse_perm order'
  have hp' : order'.Perm (built .file "m" other).details := List.reverse_perm order
  have hvalues : ∀ detail value,
      LastAttached other detail value ↔ LastAttached attached detail value := by
    intro detail value
    rw [← hlast, ← hlast']
    cases detail <;> rfl
  refine ⟨hp, hp', hvalues, fun time => ?_⟩
  have htext : Console.errorText .file "m" (built .file "m" attached).detail? = text := by
    decide +kernel
  exact ⟨((hprinted order hp).2 time).trans htext,
    (hsame other order order' hvalues hp hp' time).symm.trans
      (((hprinted order hp).2 time).trans htext)⟩

end ArithTree
