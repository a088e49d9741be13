import Directive.Proofs.Script.Bare
import Directive.Proofs.Token.Reindent

/-!
# Only relative indentation matters

A text says the same if its lines of code are set in otherwise, as long as those that were set in further
than others still are, and those that were set in as far still are too.

* `IndentedOnlyWith`, `Reindents`: the texts that this is about;
* `withoutColumns`: a script or a fault, without columns;
* `ofText_reindent`: both texts come to the same.
-/

namespace Directive

/-- The lines of code of a text, and how far they are set in. -/
def codeWidths (text : String) : Set Nat :=
  {w | ∃ line ∈ textLines (Text.joinLineEnds text.toList), line.isCode = true ∧ line.width = w}

/-- The lines of code of a text are set in with one character only. -/
def IndentedOnlyWith (text : String) (a : Char) : Prop :=
  ∀ line ∈ textLines (Text.joinLineEnds text.toList), line.isCode = true → ∀ c ∈ line.indent, c = a

/-- The second text is the first with its lines of code set in by so many of one character for their
widths. Its lines may end with or without a carriage return. -/
def Reindents (f : Nat → Nat) (ch : Char) (text text' : String) : Prop :=
  Text.joinLineEnds text'.toList = reindent f ch (Text.joinLineEnds text.toList)

/-- A script, or a fault with its cause, its line and its command. -/
def withoutColumns (parse : Upshot Fault Script) : Upshot Fault Script :=
  (parse.map fun s => ⟨s.items.map Node.bare⟩).mapError Fault.bare

/-- A script without columns is made of tokens without columns. -/
theorem withoutColumns_ofText (g : Grammar) (text : String) :
    withoutColumns (Script.ofText g text) =
      match bareScan (scanLines {} (.start (Text.joinLineEnds text.toList))) with
      | .error e => .error (e.toFault [])
      | .ok ts => .ofExcept ((Script.ofTokens g [] ts).mapError Stop.fault)
      | .endless => .endless := by
  unfold Script.ofText Token.ofText
  rcases scanLines {} (.start (Text.joinLineEnds text.toList)) with e | ts | _
  · simp [bareScan, withoutColumns, Upshot.map, Upshot.mapError, LexFailure.toFault, Fault.bare,
      Place.bare, LexFailure.bare, LexFailure.relocate, columnless, lineAt?]
  · change _ = Upshot.ofExcept ((Script.ofTokens g [] (ts.map Token.bare)).mapError Stop.fault)
    rw [ofTokens_bare g (Script.quotableLines text)]
    dsimp only [Upshot.mapError]
    rcases Script.ofTokens g (Script.quotableLines text) ts with e | s <;> rfl
  · rfl

/-- **Only relative indentation matters.** A text whose lines of code are set in with one character only
parses to the same tree, but for columns, when they are set in by other widths in the same order, with
either character. If it does not parse, neither does it then, for the same cause on the same line. -/
theorem ofText_reindent {f : Nat → Nat} {a ch : Char} {g : Grammar} {text text' : String}
    (mono : StrictMonoOn f (insert 0 (codeWidths text))) (zero : f 0 = 0)
    (blank : ch = ' ' ∨ ch = '\t')
    (uniform : IndentedOnlyWith text a) (reindented : Reindents f ch text text') :
    withoutColumns (Script.ofText g text') = withoutColumns (Script.ofText g text) := by
  have hBlank : isIndentChar ch = true := by simpa [isIndentChar] using blank
  have hStart : Layout.Rescales f (insert 0 (codeWidths text)) a ch {} {} :=
    ⟨rfl, by simp, .inl rfl, .inl rfl⟩
  have hRegular : ∀ line ∈ textLines (Text.joinLineEnds text.toList),
      line.Regular (insert 0 (codeWidths text)) a :=
    fun line hLine hCode => ⟨.inr ⟨line, hLine, hCode, rfl⟩, uniform line hLine hCode⟩
  have hTokens : bareScan (scanLines {} (.start (Text.joinLineEnds text'.toList))) =
      bareScan (scanLines {} (.start (Text.joinLineEnds text.toList))) :=
    scanLines_reindent mono zero (Set.mem_insert 0 _) hBlank hStart hRegular reindented rfl rfl
  rw [withoutColumns_ofText, withoutColumns_ofText, hTokens]

instance (text : String) (a : Char) : Decidable (IndentedOnlyWith text a) :=
  decidable_of_iff (∀ line ∈ textLines (Text.joinLineEnds text.toList), line.isCode = true →
    line.indent.all (· = a) = true) (by simp [IndentedOnlyWith])

instance (f : Nat → Nat) (ch : Char) (text text' : String) : Decidable (Reindents f ch text text') :=
  inferInstanceAs (Decidable (_ = _))

theorem ofText_reindent_deep_chains :
    (Script.ofText .builtin ("CHAIN:\n  CHAIN:\n    SEARCH: \"\"\"tea\n pot\"\"\"\n" ++
        "\t # cups\n  SEARCH: \"pot\"")).toOption.isSome = true ∧
      withoutColumns (Script.ofText .builtin ("CHAIN:\r\n\tCHAIN:\n\t\tSEARCH: \"\"\"tea\n pot\"\"\"\n" ++
        "\t # cups\n\tSEARCH: \"pot\"")) =
      withoutColumns (Script.ofText .builtin ("CHAIN:\n  CHAIN:\n    SEARCH: \"\"\"tea\n pot\"\"\"\n" ++
        "\t # cups\n  SEARCH: \"pot\"")) := by
  generalize hText : "CHAIN:\n  CHAIN:\n    SEARCH: \"\"\"tea\n pot\"\"\"\n" ++
    "\t # cups\n  SEARCH: \"pot\"" = text
  generalize hText' : "CHAIN:\r\n\tCHAIN:\n\t\tSEARCH: \"\"\"tea\n pot\"\"\"\n" ++
    "\t # cups\n\tSEARCH: \"pot\"" = text'
  have hParsed : (Script.ofText .builtin text).toOption.isSome = true := by
    subst hText
    decide +kernel
  have hSpaces : IndentedOnlyWith text ' ' := by
    subst hText
    decide +kernel
  have hTabs : Reindents (· / 2) '\t' text text' := by
    subst hText hText'
    decide +kernel
  have hWidths : ∀ line ∈ textLines (Text.joinLineEnds text.toList), line.isCode = true →
      line.width = 0 ∨ line.width = 2 ∨ line.width = 4 := by
    subst hText
    decide +kernel
  have hMember {w : Nat} (hw : w ∈ insert 0 (codeWidths text)) : w = 0 ∨ w = 2 ∨ w = 4 := by
    obtain rfl | ⟨line, hLine, hCode, rfl⟩ := hw
    · exact .inl rfl
    · exact hWidths line hLine hCode
  have hHalf : StrictMonoOn (· / 2) (insert 0 (codeWidths text)) := by
    intro v hv w hw hLess
    have hNarrow := hMember hv
    have hWide := hMember hw
    dsimp only
    omega
  exact ⟨hParsed, ofText_reindent hHalf rfl (.inr rfl) hSpaces hTabs⟩

end Directive
