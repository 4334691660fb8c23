import ArithTree.Proofs.Numerals
import ArithTree.Proofs.Runs
import ArithTree.Text

/-!
# Quoted texts are told apart

A character in a quoted text is itself, or a backslash and a mark, or its code between braces. In
each of these forms it is the only one, and it shows where it ends. So a quoted text says what it
quotes and where it ends, whatever follows it and whichever characters are hidden.
-/

set_option autoImplicit false

namespace ArithTree.Text

def marks : List (Char × Char) :=
  [('\x00', '0'), ('\t', 't'), ('\r', 'r'), ('\n', 'n'), ('\\', '\\'), ('"', '"')]

/-- The forms of a character between quotation marks. -/
inductive Shows : Char → List Char → Prop
  | plain {c : Char} : c ≠ '\\' → c ≠ '"' → Shows c [c]
  | marked {c mark : Char} : (c, mark) ∈ marks → Shows c ['\\', mark]
  | coded {c : Char} : Shows c ('\\' :: 'u' :: '\x7b' :: Number.hexDigits c.toNat ++ ['\x7d'])

theorem shows_escape (hidden : Char → Bool) (c : Char) : Shows c (escape hidden c) := by
  by_cases hnul : c = '\x00'
  · subst hnul; exact .marked (by decide)
  by_cases htab : c = '\t'
  · subst htab; exact .marked (by decide)
  by_cases hreturn : c = '\r'
  · subst hreturn; exact .marked (by decide)
  by_cases hline : c = '\n'
  · subst hline; exact .marked (by decide)
  by_cases hbackslash : c = '\\'
  · subst hbackslash; exact .marked (by decide)
  by_cases hquote : c = '"'
  · subst hquote; exact .marked (by decide)
  simp only [escape, hnul, htab, hreturn, hline, hbackslash, hquote, if_false]
  split
  · exact .coded
  · exact .plain hbackslash hquote

theorem eq_of_mem_marks {c d mark : Char} (h : (c, mark) ∈ marks) (h' : (d, mark) ∈ marks) :
    c = d := by
  have hall : ∀ a ∈ marks, ∀ b ∈ marks, a.2 = b.2 → a.1 = b.1 := by decide
  exact hall _ h _ h' rfl

theorem ne_of_mem_marks {c mark : Char} (h : (c, mark) ∈ marks) : mark ≠ 'u' := by
  have hall : ∀ a ∈ marks, a.2 ≠ 'u' := by decide
  exact hall _ h

theorem code_append_inj {c d : Char} {s t : List Char}
    (h : Number.hexDigits c.toNat ++ '\x7d' :: s = Number.hexDigits d.toNat ++ '\x7d' :: t) :
    c = d ∧ s = t := by
  have hrun : ∀ n, ∀ e ∈ Number.hexDigits n, (Number.hexValue? e).isSome = true := by
    intro n e he
    obtain ⟨digit, hdigit⟩ := Number.exists_hexValue?_of_mem_hexDigits he
    rw [hdigit, Option.isSome_some]
  have hstops : ∀ rest, Stops (fun e => (Number.hexValue? e).isSome) ('\x7d' :: rest) :=
    stops_cons rfl
  obtain ⟨hdigits, hrest⟩ := run_append_inj (hrun _) (hstops s) (hrun _) (hstops t) h
  have hcode := congrArg Number.hexValueOf hdigits
  rw [Number.hexValueOf_hexDigits, Number.hexValueOf_hexDigits] at hcode
  exact ⟨Char.toNat_inj.mp hcode, List.tail_eq_of_cons_eq hrest⟩

/-- No form begins another one, of the same or of another character. -/
theorem Shows.append_inj {c d : Char} {cs ds s t : List Char} (hc : Shows c cs) (hd : Shows d ds)
    (h : cs ++ s = ds ++ t) : c = d ∧ s = t := by
  cases hc with
  | plain hbackslash _ =>
    cases hd with
    | plain _ _ => exact List.cons.inj h
    | marked _ => exact absurd (List.cons.inj h).1 hbackslash
    | coded => exact absurd (List.cons.inj h).1 hbackslash
  | marked hmark =>
    cases hd with
    | plain hbackslash _ => exact absurd (List.cons.inj h).1.symm hbackslash
    | marked hmark' =>
      obtain ⟨_, hmarks⟩ := List.cons.inj h
      obtain ⟨rfl, hrest⟩ := List.cons.inj hmarks
      exact ⟨eq_of_mem_marks hmark hmark', hrest⟩
    | coded =>
      obtain ⟨_, hmarks⟩ := List.cons.inj h
      exact absurd (List.cons.inj hmarks).1 (ne_of_mem_marks hmark)
  | coded =>
    cases hd with
    | plain hbackslash _ => exact absurd (List.cons.inj h).1.symm hbackslash
    | marked hmark =>
      obtain ⟨_, hmarks⟩ := List.cons.inj h
      exact absurd (List.cons.inj hmarks).1.symm (ne_of_mem_marks hmark)
    | coded => exact code_append_inj (by simpa using h)

theorem Shows.ne_quote {c : Char} {cs s t : List Char} (h : Shows c cs) :
    cs ++ s ≠ '"' :: t := by
  cases h with
  | plain _ hquote => exact fun he => hquote (List.cons.inj he).1
  | marked _ => exact fun he => absurd (List.cons.inj he).1 (by decide)
  | coded => exact fun he => absurd (List.cons.inj he).1 (by decide)

theorem escaped_append_inj {hidden : Char → Bool} {cs ds s t : List Char}
    (h : cs.flatMap (escape hidden) ++ '"' :: s = ds.flatMap (escape hidden) ++ '"' :: t) :
    cs = ds ∧ s = t := by
  induction cs generalizing ds with
  | nil =>
    cases ds with
    | nil => exact ⟨rfl, (List.cons.inj h).2⟩
    | cons d ds =>
      rw [List.flatMap_cons, List.append_assoc] at h
      exact absurd h.symm (shows_escape hidden d).ne_quote
  | cons c cs ih =>
    cases ds with
    | nil =>
      rw [List.flatMap_cons, List.append_assoc] at h
      exact absurd h (shows_escape hidden c).ne_quote
    | cons d ds =>
      simp only [List.flatMap_cons, List.append_assoc] at h
      obtain ⟨rfl, hrest⟩ := (shows_escape hidden c).append_inj (shows_escape hidden d) h
      obtain ⟨rfl, hend⟩ := ih hrest
      exact ⟨rfl, hend⟩

theorem quoteWith_append_inj {hidden : Char → Bool} {a b : String} {s t : List Char}
    (h : (quoteWith hidden a).toList ++ s = (quoteWith hidden b).toList ++ t) :
    a = b ∧ s = t := by
  simp only [quoteWith, quoteChars, String.toList_ofList, List.cons_append, List.append_assoc,
    List.nil_append] at h
  obtain ⟨hchars, hrest⟩ := escaped_append_inj (List.cons.inj h).2
  exact ⟨String.toList_inj.mp hchars, hrest⟩

end ArithTree.Text
