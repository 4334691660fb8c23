import ArithTree.CommandLine
import ArithTree.Proofs.Outcomes
import Mathlib.Data.List.Induction

/-!
# The words of a command line as arguments

Every list of words begins with a longest run of whole arguments. Either nothing follows it, and
the words are the words of exactly these arguments, or the next word fits into no argument, and
that is the error. Reading takes the arguments of the run one by one and ends in the same way.
-/

set_option autoImplicit false

namespace ArithTree

def Dashed (word : String) : Prop :=
  ['-', '-'] <+: word.toList

instance (word : String) : Decidable (Dashed word) :=
  inferInstanceAs (Decidable (_ <+: _))

@[simp]
theorem isDashed_iff {word : String} : isDashed word = true ↔ Dashed word := by
  unfold isDashed Dashed
  split
  · rename_i rest h
    rw [h]
    exact iff_of_true rfl ⟨rest, rfl⟩
  · rename_i h
    refine iff_of_false (by decide) ?_
    rintro ⟨rest, hrest⟩
    exact h rest hrest.symm

theorem isDashed_eq_false_iff {word : String} : isDashed word = false ↔ ¬Dashed word := by
  rw [← isDashed_iff, Bool.not_eq_true]

namespace Argument

def words : Argument → List String
  | .tree path => [path]
  | .config path => ["--config", path]
  | .binding text _ _ => ["--var", text]
  | .flag f => [f.text]

def tree? : Argument → Option String
  | .tree path => some path
  | _ => none

def config? : Argument → Option String
  | .config path => some path
  | _ => none

def flag? : Argument → Option Flag
  | .flag f => some f
  | _ => none

def binding? : Argument → Option (String × Int64)
  | .binding _ name value => some (name, value)
  | _ => none

end Argument

/-- No path begins like a flag, and a binding means what its text says. -/
def Argument.Valid : Argument → Prop
  | .tree path => ¬Dashed path
  | .config path => ¬Dashed path
  | .binding text name value => readBinding text = .ok (name, value)
  | .flag _ => True

instance (a : Argument) : Decidable a.Valid :=
  match a with
  | .tree path => inferInstanceAs (Decidable (¬Dashed path))
  | .config path => inferInstanceAs (Decidable (¬Dashed path))
  | .binding text name value =>
      decidable_of_iff ((readBinding text).toOption = some (name, value)) <| by
        cases h : readBinding text <;> simp [Argument.Valid, h, Except.toOption]
  | .flag _ => inferInstanceAs (Decidable True)

def wordsOf (arguments : List Argument) : List String :=
  arguments.flatMap Argument.words

/-- The first of the words begins no argument, for the reason given. -/
inductive Offends : List String → ArgumentError → Prop
  | noConfig : Offends ["--config"] .missingConfig
  | dashedConfig {path : String} (rest : List String) :
      Dashed path → Offends ("--config" :: path :: rest) .missingConfig
  | noVar : Offends ["--var"] .missingVar
  | badBinding {text : String} {e : ArgumentError} (rest : List String) :
      readBinding text = .error e → Offends ("--var" :: text :: rest) e
  | unknownFlag {word : String} (rest : List String) :
      Dashed word → word ∉ ["--config", "--var", "--json", "--hide-timers"] →
      Offends (word :: rest) (.unknownFlag word)

@[simp]
theorem Flag.ofText?_eq_some_iff {word : String} {f : Flag} :
    Flag.ofText? word = some f ↔ word = f.text := by
  unfold Flag.ofText?
  constructor
  · intro h
    split at h
    · rename_i hword
      cases h
      exact hword
    · split at h
      · rename_i hword
        cases h
        exact hword
      · cases h
  · rintro rfl
    cases f <;> rfl

theorem Flag.ofText?_eq_none_iff {word : String} :
    Flag.ofText? word = none ↔ word ≠ "--json" ∧ word ≠ "--hide-timers" := by
  unfold Flag.ofText?
  split
  · simp_all
  · split <;> simp_all

@[simp]
theorem mem_flagsOf {words : List String} {f : Flag} : f ∈ flagsOf words ↔ f.text ∈ words := by
  simp [flagsOf, List.mem_filterMap]

theorem dashed_config : Dashed "--config" := ⟨_, rfl⟩

theorem dashed_var : Dashed "--var" := ⟨_, rfl⟩

theorem Flag.dashed_text (f : Flag) : Dashed f.text := by
  cases f <;> exact ⟨_, rfl⟩

theorem readArguments_tree {path : String} (h : ¬Dashed path) (rest : List String) :
    readArguments (path :: rest) = (readArguments rest).map (.tree path :: ·) := by
  have hconfig : path ≠ "--config" := fun he => h (he ▸ dashed_config)
  have hvar : path ≠ "--var" := fun he => h (he ▸ dashed_var)
  have hflag : Flag.ofText? path = none := by
    cases hf : Flag.ofText? path with
    | none => rfl
    | some f => exact absurd (Flag.ofText?_eq_some_iff.mp hf ▸ f.dashed_text) h
  rw [readArguments.eq_def]
  simp only [hconfig, hvar, hflag, isDashed_eq_false_iff.mpr h, if_false, Bool.false_eq_true]
  cases readArguments rest <;> rfl

theorem readArguments_config {path : String} (h : ¬Dashed path) (rest : List String) :
    readArguments ("--config" :: path :: rest) =
      (readArguments rest).map (.config path :: ·) := by
  rw [readArguments]
  simp only [isDashed_eq_false_iff.mpr h, Bool.false_eq_true, if_false, if_true]
  cases readArguments rest <;> rfl

theorem readArguments_binding {text name : String} {value : Int64}
    (h : readBinding text = .ok (name, value)) (rest : List String) :
    readArguments ("--var" :: text :: rest) =
      (readArguments rest).map (.binding text name value :: ·) := by
  rw [readArguments, if_neg (by decide), if_pos rfl]
  simp [h]
  cases readArguments rest <;> rfl

theorem readArguments_flag (f : Flag) (rest : List String) :
    readArguments (f.text :: rest) = (readArguments rest).map (.flag f :: ·) := by
  have hconfig : f.text ≠ "--config" := by cases f <;> decide
  have hvar : f.text ≠ "--var" := by cases f <;> decide
  rw [readArguments.eq_def]
  simp only [hconfig, hvar, if_false, Flag.ofText?_eq_some_iff.mpr rfl]
  cases readArguments rest <;> rfl

theorem readArguments_words {a : Argument} (h : a.Valid) (rest : List String) :
    readArguments (a.words ++ rest) = (readArguments rest).map (a :: ·) := by
  cases a with
  | tree path => exact readArguments_tree h rest
  | config path => exact readArguments_config h rest
  | binding text name value => exact readArguments_binding h rest
  | flag f => exact readArguments_flag f rest

theorem readArguments_of_offends {words : List String} {e : ArgumentError}
    (h : Offends words e) : readArguments words = .error e := by
  cases h with
  | noConfig => rfl
  | dashedConfig rest hpath => simp [readArguments, isDashed_iff.mpr hpath]
  | noVar => rfl
  | badBinding rest hb =>
    rw [readArguments, if_neg (by decide), if_pos rfl]
    simp [hb]
  | @unknownFlag word rest hword hother =>
    simp only [List.mem_cons, List.not_mem_nil, or_false, not_or] at hother
    obtain ⟨hconfig, hvar, hflags⟩ := hother
    rw [readArguments.eq_def]
    simp only [hconfig, hvar, if_false, Flag.ofText?_eq_none_iff.mpr hflags,
      isDashed_iff.mpr hword, if_true]

theorem first_argument (word : String) (rest : List String) :
    (∃ a after, Argument.Valid a ∧ word :: rest = a.words ++ after) ∨
    (∃ e, Offends (word :: rest) e) := by
  by_cases hconfig : word = "--config"
  · subst hconfig
    cases rest with
    | nil => exact .inr ⟨_, .noConfig⟩
    | cons path rest =>
      by_cases hpath : Dashed path
      · exact .inr ⟨_, .dashedConfig rest hpath⟩
      · exact .inl ⟨.config path, rest, hpath, rfl⟩
  by_cases hvar : word = "--var"
  · subst hvar
    cases rest with
    | nil => exact .inr ⟨_, .noVar⟩
    | cons text rest =>
      cases hb : readBinding text with
      | error e => exact .inr ⟨e, .badBinding rest hb⟩
      | ok b => exact .inl ⟨.binding text b.1 b.2, rest, hb, rfl⟩
  by_cases hword : Dashed word
  · cases hf : Flag.ofText? word with
    | some f => exact .inl ⟨.flag f, rest, trivial, by rw [Flag.ofText?_eq_some_iff.mp hf]; rfl⟩
    | none =>
      obtain ⟨hjson, htimers⟩ := Flag.ofText?_eq_none_iff.mp hf
      exact .inr ⟨_, .unknownFlag rest hword (by simp [hconfig, hvar, hjson, htimers])⟩
  · exact .inl ⟨.tree word, rest, hword, rfl⟩

theorem Argument.words_ne_nil (a : Argument) : a.words ≠ [] := by
  cases a <;> simp [Argument.words]

/-- Whole arguments as far as they go, and then either nothing or a word that offends. -/
theorem exists_longest_run (words : List String) :
    ∃ before rest, (∀ a ∈ before, Argument.Valid a) ∧ words = wordsOf before ++ rest ∧
      (rest = [] ∨ ∃ e, Offends rest e) := by
  -- An argument can take two words, so the induction is on their number and not on the list.
  induction hn : words.length using Nat.strongRecOn generalizing words with
  | ind n ih =>
    cases words with
    | nil => exact ⟨[], [], by simp, rfl, .inl rfl⟩
    | cons word rest =>
      rcases first_argument word rest with ⟨a, after, ha, hw⟩ | hoffends
      · have hlt : after.length < n := by
          have hpos := List.length_pos_iff.mpr a.words_ne_nil
          rw [← hn, hw, List.length_append]
          omega
        obtain ⟨before, last, hvalid, hwords, hend⟩ := ih _ hlt after rfl
        refine ⟨a :: before, last, ?_, ?_, hend⟩
        · intro b hb
          rcases List.mem_cons.mp hb with rfl | hb
          · exact ha
          · exact hvalid b hb
        · rw [hw, hwords, wordsOf, wordsOf, List.flatMap_cons, List.append_assoc]
      · exact ⟨[], word :: rest, by simp, rfl, .inr hoffends⟩

theorem readArguments_wordsOf_append {before : List Argument}
    (h : ∀ a ∈ before, Argument.Valid a) (rest : List String) :
    readArguments (wordsOf before ++ rest) = (readArguments rest).map (before ++ ·) := by
  induction before with
  | nil => cases hr : readArguments rest <;> simp [wordsOf, hr]
  | cons a before ih =>
    have ha := h a List.mem_cons_self
    have hbefore := ih (fun b hb => h b (List.mem_cons_of_mem _ hb))
    rw [wordsOf, List.flatMap_cons, List.append_assoc, readArguments_words ha]
    rw [wordsOf] at hbefore
    rw [hbefore]
    cases readArguments rest <;> rfl

theorem readArguments_wordsOf {arguments : List Argument}
    (h : ∀ a ∈ arguments, Argument.Valid a) :
    readArguments (wordsOf arguments) = .ok arguments := by
  have hread := readArguments_wordsOf_append h []
  rw [List.append_nil] at hread
  simpa [readArguments] using hread

theorem readArguments_after_run {before : List Argument} (h : ∀ a ∈ before, Argument.Valid a)
    {rest : List String} {e : ArgumentError} (he : Offends rest e) :
    readArguments (wordsOf before ++ rest) = .error e := by
  rw [readArguments_wordsOf_append h, readArguments_of_offends he]
  rfl

theorem readArguments_ok_iff {words : List String} {arguments : List Argument} :
    readArguments words = .ok arguments ↔
      (∀ a ∈ arguments, Argument.Valid a) ∧ words = wordsOf arguments := by
  constructor
  · intro h
    obtain ⟨before, rest, hvalid, rfl, rfl | ⟨e, he⟩⟩ := exists_longest_run words
    · rw [List.append_nil] at h ⊢
      rw [readArguments_wordsOf hvalid] at h
      cases h
      exact ⟨hvalid, rfl⟩
    · rw [readArguments_after_run hvalid he] at h
      cases h
  · rintro ⟨hvalid, rfl⟩
    exact readArguments_wordsOf hvalid

theorem readArguments_error_iff {words : List String} {e : ArgumentError} :
    readArguments words = .error e ↔
      ∃ before rest, (∀ a ∈ before, Argument.Valid a) ∧ words = wordsOf before ++ rest ∧
        Offends rest e := by
  constructor
  · intro h
    obtain ⟨before, rest, hvalid, rfl, rfl | ⟨e', he⟩⟩ := exists_longest_run words
    · rw [List.append_nil, readArguments_wordsOf hvalid] at h
      cases h
    · rw [readArguments_after_run hvalid he] at h
      cases h
      exact ⟨before, rest, hvalid, rfl, he⟩
  · rintro ⟨before, rest, hvalid, rfl, he⟩
    exact readArguments_after_run hvalid he

theorem RunArguments.ofArguments_eq (arguments : List Argument) :
    RunArguments.ofArguments arguments =
      ⟨arguments.filterMap Argument.tree?, (arguments.filterMap Argument.config?).getLast?,
        arguments.filterMap Argument.binding?⟩ := by
  induction arguments using List.reverseRecOn with
  | nil => rfl
  | append_singleton before last ih =>
    rw [RunArguments.ofArguments] at ih ⊢
    rw [List.foldl_append, ih, List.filterMap_append, List.filterMap_append, List.filterMap_append]
    cases last <;>
      simp [RunArguments.add, Argument.tree?, Argument.config?, Argument.binding?]

theorem RunArguments.eq_ofArguments_iff {r : RunArguments} {arguments : List Argument} :
    r = .ofArguments arguments ↔
      r.trees = arguments.filterMap Argument.tree? ∧
        r.options.config? = (arguments.filterMap Argument.config?).getLast? ∧
        r.options.bindings = arguments.filterMap Argument.binding? := by
  obtain ⟨trees, config?, bindings⟩ := r
  simp [RunArguments.ofArguments_eq]

theorem readRun_ok_iff {words : List String} {r : RunArguments} :
    readRun words = .ok r ↔
      ∃ arguments, (∀ a ∈ arguments, Argument.Valid a) ∧ words = wordsOf arguments ∧
        r = .ofArguments arguments := by
  simp [readRun, readArguments_ok_iff, and_assoc, eq_comm]

theorem readRun_error_iff {words : List String} {e : ArgumentError} :
    readRun words = .error e ↔ readArguments words = .error e := by
  rw [readRun]
  cases readArguments words <;> simp

theorem Command.ofEval_ok_iff {r : RunArguments} {command : Command} :
    Command.ofEval r = .ok command ↔ ∃ tree, r.trees = [tree] ∧ command = .eval tree r.options := by
  obtain ⟨trees, options⟩ := r
  match trees with
  | [] => simp [Command.ofEval]
  | [tree] => simp [Command.ofEval, eq_comm]
  | _ :: _ :: _ => simp [Command.ofEval]

theorem Command.ofTransform_ok_iff {r : RunArguments} {command : Command} :
    Command.ofTransform r = .ok command ↔
      r.trees ≠ [] ∧ command = .transform r.trees r.options := by
  obtain ⟨trees, options⟩ := r
  match trees with
  | [] => simp [Command.ofTransform]
  | _ :: _ => simp [Command.ofTransform, eq_comm]

theorem Command.ofWords_cases (words : List String) :
    (∃ rest, words = "eval" :: rest ∧
      Command.ofWords words = readRun rest >>= Command.ofEval) ∨
    (∃ rest, words = "rewrite" :: rest ∧
      Command.ofWords words = readRun rest >>= Command.ofTransform) ∨
    Command.ofWords words = .ok .demo ∨ Command.ofWords words = .ok .help ∨
    (∃ word, Command.ofWords words = .error (.unknownCommand word)) := by
  cases words with
  | nil => exact .inr (.inr (.inl rfl))
  | cons word rest =>
    by_cases heval : word = "eval"
    · subst heval
      exact .inl ⟨rest, rfl, rfl⟩
    by_cases htransform : word = "rewrite"
    · subst htransform
      exact .inr (.inl ⟨rest, rfl, rfl⟩)
    refine .inr (.inr ?_)
    by_cases hdemo : word = "demo"
    · exact .inl (by rw [Command.ofWords, if_pos hdemo])
    by_cases hhelp : word = "help"
    · exact .inr (.inl (by rw [Command.ofWords, if_neg hdemo, if_pos hhelp]))
    · refine .inr (.inr ⟨word, ?_⟩)
      rw [Command.ofWords, if_neg hdemo, if_neg hhelp, if_neg heval, if_neg htransform]

theorem Command.ofWords_eval_iff {words : List String} {tree : String} {options : Options} :
    Command.ofWords words = .ok (.eval tree options) ↔
      ∃ arguments, (∀ a ∈ arguments, Argument.Valid a) ∧ words = "eval" :: wordsOf arguments ∧
        RunArguments.ofArguments arguments = ⟨[tree], options⟩ := by
  constructor
  · intro h
    rcases Command.ofWords_cases words with
      ⟨rest, rfl, hw⟩ | ⟨rest, rfl, hw⟩ | hw | hw | ⟨_, hw⟩ <;> rw [hw] at h
    · obtain ⟨r, hread, hcommand⟩ := bind_eq_ok_iff.mp h
      obtain ⟨arguments, hvalid, rfl, rfl⟩ := readRun_ok_iff.mp hread
      obtain ⟨_, htree, heq⟩ := Command.ofEval_ok_iff.mp hcommand
      cases heq
      exact ⟨arguments, hvalid, rfl, by rw [← htree]⟩
    · obtain ⟨_, _, hcommand⟩ := bind_eq_ok_iff.mp h
      cases (Command.ofTransform_ok_iff.mp hcommand).2
    all_goals cases h
  · rintro ⟨arguments, hvalid, rfl, hrun⟩
    apply bind_eq_ok_iff.mpr
    exact ⟨_, readRun_ok_iff.mpr ⟨arguments, hvalid, rfl, hrun.symm⟩, rfl⟩

theorem Command.ofWords_transform_iff {words trees : List String} {options : Options} :
    Command.ofWords words = .ok (.transform trees options) ↔
      ∃ arguments, (∀ a ∈ arguments, Argument.Valid a) ∧ words = "rewrite" :: wordsOf arguments ∧
        trees ≠ [] ∧ RunArguments.ofArguments arguments = ⟨trees, options⟩ := by
  constructor
  · intro h
    rcases Command.ofWords_cases words with
      ⟨rest, rfl, hw⟩ | ⟨rest, rfl, hw⟩ | hw | hw | ⟨_, hw⟩ <;> rw [hw] at h
    · obtain ⟨_, _, hcommand⟩ := bind_eq_ok_iff.mp h
      obtain ⟨_, _, heq⟩ := Command.ofEval_ok_iff.mp hcommand
      cases heq
    · obtain ⟨r, hread, hcommand⟩ := bind_eq_ok_iff.mp h
      obtain ⟨arguments, hvalid, rfl, rfl⟩ := readRun_ok_iff.mp hread
      obtain ⟨hsome, heq⟩ := Command.ofTransform_ok_iff.mp hcommand
      cases heq
      exact ⟨arguments, hvalid, rfl, hsome, rfl⟩
    all_goals cases h
  · rintro ⟨arguments, hvalid, rfl, hsome, hrun⟩
    apply bind_eq_ok_iff.mpr
    exact ⟨_, readRun_ok_iff.mpr ⟨arguments, hvalid, rfl, hrun.symm⟩,
      Command.ofTransform_ok_iff.mpr ⟨hsome, rfl⟩⟩

/-- Reading undoes writing and nothing else is read: words are those of one list of arguments at
most, and without such a list the first word that offends is the error. Of the arguments a run gets
the trees in order, the last configuration, and all bindings in order; the one command wants one
tree, the other at least one. -/
theorem commandLine_exact :
    (∀ arguments : List Argument, (∀ a ∈ arguments, a.Valid) →
      readArguments (wordsOf arguments) = .ok arguments) ∧
    (∀ words arguments, readArguments words = .ok arguments →
      ((∀ a ∈ arguments, a.Valid) ∧ wordsOf arguments = words) ∧
      ∀ other : List Argument, (∀ a ∈ other, a.Valid) → wordsOf other = words →
        other = arguments) ∧
    (∀ words, (¬∃ arguments : List Argument, (∀ a ∈ arguments, a.Valid) ∧
        wordsOf arguments = words) →
      ∃ before rest e, (∀ a ∈ before, Argument.Valid a) ∧ words = wordsOf before ++ rest ∧
        Offends rest e ∧ readArguments words = .error e) ∧
    (∀ arguments : List Argument, (∀ a ∈ arguments, a.Valid) →
      readRun (wordsOf arguments) =
        .ok ⟨arguments.filterMap Argument.tree?, (arguments.filterMap Argument.config?).getLast?,
          arguments.filterMap Argument.binding?⟩) ∧
    (∀ words e, readRun words = .error e ↔ readArguments words = .error e) ∧
    (∀ words tree options, Command.ofWords words = .ok (.eval tree options) ↔
      ∃ arguments : List Argument, (∀ a ∈ arguments, a.Valid) ∧
        words = "eval" :: wordsOf arguments ∧
        arguments.filterMap Argument.tree? = [tree] ∧
        options.config? = (arguments.filterMap Argument.config?).getLast? ∧
        options.bindings = arguments.filterMap Argument.binding?) ∧
    (∀ words trees options, Command.ofWords words = .ok (.transform trees options) ↔
      ∃ arguments : List Argument, (∀ a ∈ arguments, a.Valid) ∧
        words = "rewrite" :: wordsOf arguments ∧
        arguments.filterMap Argument.tree? = trees ∧ trees ≠ [] ∧
        options.config? = (arguments.filterMap Argument.config?).getLast? ∧
        options.bindings = arguments.filterMap Argument.binding?) := by
  refine ⟨fun _ => readArguments_wordsOf, ?_, ?_, ?_, fun _ _ => readRun_error_iff, ?_, ?_⟩
  · intro words arguments h
    obtain ⟨hvalid, hwords⟩ := readArguments_ok_iff.mp h
    refine ⟨⟨hvalid, hwords.symm⟩, fun other hother hsame => ?_⟩
    rw [← hsame, readArguments_wordsOf hother] at h
    cases h
    rfl
  · intro words hno
    cases hread : readArguments words with
    | ok arguments =>
      obtain ⟨hvalid, hwords⟩ := readArguments_ok_iff.mp hread
      exact absurd ⟨arguments, hvalid, hwords.symm⟩ hno
    | error e =>
      obtain ⟨before, rest, hvalid, hwords, he⟩ := readArguments_error_iff.mp hread
      exact ⟨before, rest, e, hvalid, hwords, he, rfl⟩
  · intro arguments hvalid
    rw [← RunArguments.ofArguments_eq]
    exact readRun_ok_iff.mpr ⟨arguments, hvalid, rfl, rfl⟩
  · intro words tree options
    simp only [Command.ofWords_eval_iff, eq_comm (b := RunArguments.mk [tree] options),
      RunArguments.eq_ofArguments_iff, eq_comm (a := [tree])]
  · intro words trees options
    simp only [Command.ofWords_transform_iff, eq_comm (b := RunArguments.mk trees options),
      RunArguments.eq_ofArguments_iff, eq_comm (a := trees), ne_eq, and_left_comm]

/-- A value that looks like a flag is one for a binding, and the second configuration holds. -/
theorem commandLine_exact_repeated_config :
    Command.ofWords ["rewrite", "--config", "a.toml", "b.json", "--var", "--x=-7", "--json",
        "--config", "c.toml"] =
      .ok (.transform ["b.json"] ⟨some "c.toml", [("--x", -7)]⟩) := by
  refine (commandLine_exact.2.2.2.2.2.2 _ _ _).mpr ⟨[.config "a.toml", .tree "b.json",
    .binding "--x=-7" "--x" (-7), .flag .json, .config "c.toml"], ?_, rfl, rfl, by simp, rfl, rfl⟩
  decide +kernel

end ArithTree
