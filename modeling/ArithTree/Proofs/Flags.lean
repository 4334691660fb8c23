import ArithTree.Proofs.CommandLine

/-!
# Flags among the words

The flags of a run are all words that are the text of a flag, wherever they stand. Reading the
arguments goes by what stands before a word. Both find the same flags: no path begins like a
flag, and the text of a flag is no binding, so no word that has been taken for anything else can
be one. The command that is read depends on the other arguments only.
-/

set_option autoImplicit false

namespace ArithTree

theorem Flag.eq_of_text_eq {f g : Flag} (h : f.text = g.text) : f = g := by
  have hf : Flag.ofText? f.text = some f := Flag.ofText?_eq_some_iff.mpr rfl
  have hg : Flag.ofText? f.text = some g := Flag.ofText?_eq_some_iff.mpr h
  rw [hf] at hg
  exact Option.some.inj hg

theorem readBinding_flag (f : Flag) : readBinding f.text = .error (.noEquals f.text) := by
  cases f <;> rfl

theorem Argument.eq_flag_of_mem_words {a : Argument} {f : Flag} (ha : a.Valid)
    (hf : f.text ∈ a.words) : a = .flag f := by
  cases a with
  | tree path =>
    rw [Argument.words, List.mem_singleton] at hf
    exact absurd (hf ▸ f.dashed_text) ha
  | config path =>
    rw [Argument.words, List.mem_pair] at hf
    rcases hf with hoption | hpath
    · cases f <;> simp [Flag.text] at hoption
    · exact absurd (hpath ▸ f.dashed_text) ha
  | binding text name value =>
    rw [Argument.words, List.mem_pair] at hf
    rcases hf with hoption | htext
    · cases f <;> simp [Flag.text] at hoption
    · have hread : readBinding text = .ok (name, value) := ha
      rw [← htext, readBinding_flag] at hread
      cases hread
  | flag g =>
    rw [Argument.words, List.mem_singleton] at hf
    rw [Flag.eq_of_text_eq hf]

theorem flagsOf_append (words rest : List String) :
    flagsOf (words ++ rest) = flagsOf words ++ flagsOf rest :=
  List.filterMap_append

theorem flagsOf_cons_of_not_flag {word : String} (h : ∀ f : Flag, word ≠ f.text)
    (rest : List String) : flagsOf (word :: rest) = flagsOf rest := by
  have hnone : Flag.ofText? word = none := Flag.ofText?_eq_none_iff.mpr ⟨h .json, h .hideTimers⟩
  rw [flagsOf, List.filterMap_cons_none hnone, flagsOf]

theorem flagsOf_words {a : Argument} (h : a.Valid) : flagsOf a.words = a.flag?.toList := by
  have hmem : ∀ f, f ∈ flagsOf a.words → a = .flag f :=
    fun f hf => Argument.eq_flag_of_mem_words h (mem_flagsOf.mp hf)
  have hnil : (∀ f, a ≠ .flag f) → flagsOf a.words = [] :=
    fun hne => List.eq_nil_iff_forall_not_mem.mpr fun f hf => hne f (hmem f hf)
  cases a with
  | tree path => exact hnil fun f he => by cases he
  | config path => exact hnil fun f he => by cases he
  | binding text name value => exact hnil fun f he => by cases he
  | flag f => cases f <;> rfl

theorem flagsOf_wordsOf {arguments : List Argument} (h : ∀ a ∈ arguments, Argument.Valid a) :
    flagsOf (wordsOf arguments) = arguments.filterMap Argument.flag? := by
  induction arguments with
  | nil => rfl
  | cons a arguments ih =>
    have ha := flagsOf_words (h a List.mem_cons_self)
    have hrest := ih fun b hb => h b (List.mem_cons_of_mem _ hb)
    rw [wordsOf] at hrest
    rw [wordsOf, List.flatMap_cons, flagsOf_append, ha, hrest]
    cases hf : a.flag? <;> simp [hf]

/-- The same words but for flags that have been put in or taken out, at any places except
between an option and its value. -/
inductive DifferInFlags : List String → List String → Prop
  | same (words : List String) : DifferInFlags words words
  | put (f : Flag) {words words' : List String} :
      DifferInFlags words words' → DifferInFlags words (f.text :: words')
  | taken (f : Flag) {words words' : List String} :
      DifferInFlags words words' → DifferInFlags (f.text :: words) words'
  | word {word : String} {words words' : List String} :
      word ≠ "--config" → word ≠ "--var" → DifferInFlags words words' →
      DifferInFlags (word :: words) (word :: words')
  | option {option : String} (value : String) {words words' : List String} :
      option = "--config" ∨ option = "--var" → DifferInFlags words words' →
      DifferInFlags (option :: value :: words) (option :: value :: words')

def withoutFlags (arguments : List Argument) : List Argument :=
  arguments.filter fun a => a.flag?.isNone

theorem RunArguments.ofArguments_withoutFlags (arguments : List Argument) :
    RunArguments.ofArguments (withoutFlags arguments) = .ofArguments arguments := by
  rw [RunArguments.ofArguments, RunArguments.ofArguments, withoutFlags]
  generalize ({} : RunArguments) = r
  induction arguments generalizing r with
  | nil => rfl
  | cons a arguments ih => cases a <;> exact ih _

def readUnflagged (words : List String) : Except ArgumentError (List Argument) :=
  (readArguments words).map withoutFlags

/-- Some words that are read in the same way whatever follows them. -/
def ReadAlone (front : List String) : Prop :=
  (∃ a, ∀ rest, readArguments (front ++ rest) = (readArguments rest).map (a :: ·)) ∨
  (∃ e, ∀ rest, readArguments (front ++ rest) = .error e)

theorem readAlone_words {a : Argument} (h : a.Valid) : ReadAlone a.words :=
  .inl ⟨a, readArguments_words h⟩

theorem readAlone_word {word : String} (hconfig : word ≠ "--config") (hvar : word ≠ "--var") :
    ReadAlone [word] := by
  by_cases hword : Dashed word
  · cases hf : Flag.ofText? word with
    | some f =>
      rw [Flag.ofText?_eq_some_iff.mp hf]
      exact readAlone_words (a := .flag f) trivial
    | none =>
      obtain ⟨hjson, htimers⟩ := Flag.ofText?_eq_none_iff.mp hf
      refine .inr ⟨.unknownFlag word, fun rest => readArguments_of_offends ?_⟩
      exact .unknownFlag rest hword (by simp [hconfig, hvar, hjson, htimers])
  · exact readAlone_words (a := .tree word) hword

theorem readAlone_option {option : String} (h : option = "--config" ∨ option = "--var")
    (value : String) : ReadAlone [option, value] := by
  rcases h with rfl | rfl
  · by_cases hvalue : Dashed value
    · exact .inr ⟨_, fun rest => readArguments_of_offends (.dashedConfig rest hvalue)⟩
    · exact readAlone_words (a := .config value) hvalue
  · cases hb : readBinding value with
    | error e => exact .inr ⟨_, fun rest => readArguments_of_offends (.badBinding rest hb)⟩
    | ok b => exact readAlone_words (a := .binding value b.1 b.2) hb

theorem readUnflagged_flag (f : Flag) (words : List String) :
    readUnflagged (f.text :: words) = readUnflagged words := by
  rw [readUnflagged, readArguments_flag, readUnflagged]
  cases readArguments words <;> rfl

theorem readUnflagged_append {front words words' : List String} (hfront : ReadAlone front)
    (h : readUnflagged words = readUnflagged words') :
    readUnflagged (front ++ words) = readUnflagged (front ++ words') := by
  rcases hfront with ⟨a, ha⟩ | ⟨e, he⟩
  · have hcons : ∀ rest, readUnflagged (front ++ rest) =
        (readUnflagged rest).map (withoutFlags [a] ++ ·) := by
      intro rest
      rw [readUnflagged, ha, readUnflagged]
      cases readArguments rest with
      | error e => rfl
      | ok arguments => exact congrArg Except.ok (List.filter_append [a] arguments)
    rw [hcons, hcons, h]
  · rw [readUnflagged, readUnflagged, he, he]

/-- The induction goes along the two lists; at each place a flag is read and dropped again, or
the same words are read on both sides, with an outcome that what follows has no part in. -/
theorem readUnflagged_of_differInFlags {words words' : List String}
    (h : DifferInFlags words words') : readUnflagged words = readUnflagged words' := by
  induction h with
  | same words => rfl
  | put f _ ih => rw [readUnflagged_flag, ih]
  | taken f _ ih => rw [readUnflagged_flag, ih]
  | word hconfig hvar _ ih => exact readUnflagged_append (readAlone_word hconfig hvar) ih
  | option value hoption _ ih => exact readUnflagged_append (readAlone_option hoption value) ih

theorem readRun_eq_readUnflagged (words : List String) :
    readRun words = (readUnflagged words).map RunArguments.ofArguments := by
  rw [readRun, readUnflagged]
  cases readArguments words with
  | error e => rfl
  | ok arguments => exact congrArg Except.ok (RunArguments.ofArguments_withoutFlags arguments).symm

theorem Command.ofWords_of_differInFlags {words words' : List String}
    (h : DifferInFlags words words') (word : String) :
    Command.ofWords (word :: words) = Command.ofWords (word :: words') := by
  have hrun : readRun words = readRun words' := by
    rw [readRun_eq_readUnflagged, readRun_eq_readUnflagged, readUnflagged_of_differInFlags h]
  rw [Command.ofWords, Command.ofWords, hrun]

theorem Command.arguments_of_ofWords {words : List String} {command : Command}
    (h : Command.ofWords words = .ok command) (hdemo : command ≠ .demo) (hhelp : command ≠ .help) :
    ∃ word arguments, (word = "eval" ∨ word = "rewrite") ∧ words = word :: wordsOf arguments ∧
      ∀ a ∈ arguments, Argument.Valid a := by
  cases command with
  | demo => exact absurd rfl hdemo
  | help => exact absurd rfl hhelp
  | eval tree options =>
    obtain ⟨arguments, hvalid, hwords, _⟩ := Command.ofWords_eval_iff.mp h
    exact ⟨"eval", arguments, .inl rfl, hwords, hvalid⟩
  | transform trees options =>
    obtain ⟨arguments, hvalid, hwords, _⟩ := Command.ofWords_transform_iff.mp h
    exact ⟨"rewrite", arguments, .inr rfl, hwords, hvalid⟩

/-- For a command that takes arguments, the flags among all words are those that were read as
flags, in the same order, and no word of another argument is the text of a flag. To put in flags
or take them out, except between an option and its value, leaves every command as it is. -/
theorem flags_agree :
    (∀ program words command, (∀ f : Flag, program ≠ f.text) →
      Command.ofWords words = .ok command → command ≠ .demo → command ≠ .help →
      ∃ word arguments, (word = "eval" ∨ word = "rewrite") ∧ words = word :: wordsOf arguments ∧
        readArguments (wordsOf arguments) = .ok arguments ∧
        flagsOf (program :: words) = arguments.filterMap Argument.flag? ∧
        ∀ a ∈ arguments, ∀ f : Flag, f.text ∈ a.words → a = .flag f) ∧
    (∀ word words words', DifferInFlags words words' →
      Command.ofWords (word :: words) = Command.ofWords (word :: words')) := by
  refine ⟨?_, fun word _ _ h => Command.ofWords_of_differInFlags h word⟩
  intro program words command hprogram h hdemo hhelp
  obtain ⟨word, arguments, hword, rfl, hvalid⟩ := Command.arguments_of_ofWords h hdemo hhelp
  have hname : ∀ f : Flag, word ≠ f.text := by
    rcases hword with rfl | rfl <;> intro f <;> cases f <;> decide
  refine ⟨word, arguments, hword, rfl, readArguments_wordsOf hvalid, ?_, ?_⟩
  · rw [flagsOf_cons_of_not_flag hprogram, flagsOf_cons_of_not_flag hname]
    exact flagsOf_wordsOf hvalid
  · exact fun a ha f hf => Argument.eq_flag_of_mem_words (hvalid a ha) hf

theorem flags_agree_around_options :
    let words := ["rewrite", "--json", "--var", "--x=-7", "a.json", "--hide-timers", "--config",
      "c.toml", "--json"]
    (∃ word arguments, words = word :: wordsOf arguments ∧
      flagsOf ("exprw" :: words) = arguments.filterMap Argument.flag?) ∧
    flagsOf ("exprw" :: words) = [.json, .hideTimers, .json] ∧
    Command.ofWords words = .ok (.transform ["a.json"] ⟨some "c.toml", [("--x", -7)]⟩) ∧
    Command.ofWords words =
      Command.ofWords ["rewrite", "--var", "--x=-7", "a.json", "--config", "c.toml"] := by
  intro words
  have hprogram : ∀ f : Flag, "exprw" ≠ f.text := by
    intro f
    cases f <;> decide
  have hcommand : Command.ofWords words =
      .ok (.transform ["a.json"] ⟨some "c.toml", [("--x", -7)]⟩) := by decide +kernel
  obtain ⟨word, arguments, _, hwords, _, hflags, _⟩ :=
    flags_agree.1 "exprw" words _ hprogram hcommand (by simp) (by simp)
  refine ⟨⟨word, arguments, hwords, hflags⟩, rfl, hcommand, flags_agree.2 "rewrite" _ _ ?_⟩
  exact .taken .json (.option "--x=-7" (.inr rfl) (.word (by decide) (by decide)
    (.taken .hideTimers (.option "c.toml" (.inl rfl) (.taken .json (.same []))))))

end ArithTree
