import Directive.Proofs.Script.DraftLine
import Directive.Proofs.Script.Recognition
import Directive.Proofs.Token.Scan

/-!
# Scripts of one line

* `CommandDraft.tokens_of_write`: the tokens of a command that is the whole text;
* `CommandDraft.script_of_write`: its tree;
* `callText`, `modifierText`: a command with a text in quotes, and a modifier behind it;
* `CommandDraft.write_calling`: these texts are what a draft is written as.
-/

namespace Directive

def quoted (s : String) : String := String.ofList (quote s.toList)

/-- A name, a colon, a blank, and a text in quotes. -/
def callText (name s : String) : String := name ++ ": " ++ quoted s

/-- A blank, two hyphens, a key, and a value in quotes. -/
def modifierText (key value : String) : String := " --" ++ key ++ "=" ++ quoted value

namespace CommandDraft

variable {g : Grammar} {d : CommandDraft}

/-- The line has its line end in the tokens, if not in the text. -/
theorem tokens_of_write (h : d.Fits g none) :
    ∃ (colon lineEnd last : Token) (ts : List Token),
      Token.ofText (String.ofList d.write) =
        .ok (⟨.commandName, d.name, 1, 1⟩ :: colon :: ts ++ [lineEnd, last]) ∧
      colon.content = (.colon, ":") ∧ ts.map Token.content = d.arguments.flatMap (·.contents) ∧
      lineEnd.content = (.newline, "\n") ∧ last.content = (.eof, "") := by
  have hEnter : Layout.enter {} [] 1 = .ok ({}, []) := rfl
  obtain ⟨colon, lineEnd, ts, column, hLine, hColon, hEnd, hContents⟩ :=
    scanLine_write hEnter (List.forall_mem_nil _) h.identifier (d.allRead_arguments h .nil) .nil
  rw [List.nil_append, List.append_nil, String.ofList_toList] at hLine
  generalize hLast : Cursor.mk [] _ column = last at hLine
  have hEnded : last.rest = [] := by rw [← hLast]
  have hScan := scanLines_next (by simp [writeLine]) hLine
  rw [Cursor.next_of_nil hEnded, scanLines_of_nil _ hEnded] at hScan
  refine ⟨colon, lineEnd, last.token .eof [], ts, ofText_eq_ok_iff.mpr ?_, hColon, hContents,
    hEnd, rfl⟩
  rw [String.toList_ofList, (joined_write h).kept]
  refine hScan.trans ?_
  simp [Upshot.map, finish]

theorem script_of_write (h : d.Fits g none) :
    Script.ofText g (String.ofList d.write) = .ok ⟨[.invocation (d.invocation none 1 1)]⟩ := by
  obtain ⟨colon, lineEnd, last, ts, hTokens, hColon, hContents, hEnd, hLast⟩ := tokens_of_write h
  have hLine : CommandLine g none (⟨.commandName, d.name, 1, 1⟩ :: colon :: ts) _ :=
    d.commandLine_of_contents h rfl rfl (congrArg Prod.fst hColon) hContents
  have hBlock := Block.command hLine (congrArg Prod.fst hEnd) .nil
  have hScript := @ofTokens_of_derivation _ (Script.quotableLines (String.ofList d.write)) _ _
    (.script hBlock (congrArg Prod.fst hLast))
  rw [List.append_assoc] at hScript
  rw [Script.ofText, hTokens]
  exact Upshot.ofExcept_eq_ok.mpr (congrArg (Except.mapError Stop.fault) hScript)

/-- A command that is called with one text, and with some modifiers. -/
def calling (name s : String) (modifiers : List (String × String)) : CommandDraft :=
  ⟨name, some (.literal [⟨s, false⟩]), modifiers⟩

theorem writeArguments_modifiers (modifiers : List (String × String)) :
    writeArguments (modifiers.map modifierArgument) =
      (String.join (modifiers.map fun m => modifierText m.1 m.2)).toList := by
  induction modifiers with
  | nil => rfl
  | cons m modifiers ih =>
    rw [writeArguments] at ih
    rw [List.map_cons, List.map_cons, String.join_cons, String.toList_append, ← ih, writeArguments,
      List.flatMap_cons]
    simp [modifierArgument, modifierText, writeModifier, quoted]

theorem write_calling (name s : String) (modifiers : List (String × String)) :
    String.ofList (calling name s modifiers).write =
      callText name s ++ String.join (modifiers.map fun m => modifierText m.1 m.2) := by
  have hArguments : (calling name s modifiers).arguments =
      ⟨quote s.toList, [(.quotedString, s)]⟩ :: modifiers.map modifierArgument := rfl
  rw [← String.toList_inj, String.toList_ofList, String.toList_append, ← writeArguments_modifiers,
    write, hArguments, writeLine, callText]
  simp [writeArguments, calling, quoted]

end CommandDraft

end Directive
