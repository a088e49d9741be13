import Directive.Prompt.Basic

/-!
# Texts in prompts

* `Template.HasPieces`: what a template in front of any other is read as;
* `Template.Says`: the templates that stand for a text;
* `says_escapeText`: a text that is escaped is such a template, whatever braces it has;
* `Prompt.Section`, `Prompt.sections`: what a message is made of, with no templates in it;
* `Prompt.assemble_verbatim`: the messages are the system text and the sections, as they are.
-/

namespace Directive

namespace Template

/-! ### Reading -/

def IsBrace (c : Char) : Prop := c = '\x7b' ∨ c = '\x7d'

instance : DecidablePred IsBrace := fun c => inferInstanceAs (Decidable (c = '\x7b' ∨ c = '\x7d'))

/-- A text without braces. -/
def NoBraces (cs : List Char) : Prop := ∀ c ∈ cs, ¬ IsBrace c

instance (cs : List Char) : Decidable (NoBraces cs) := List.decidableBAll _ cs

/-- The template has these pieces, and what comes behind it is read on its own. -/
def HasPieces (template : List Char) (pieces : List Piece) : Prop :=
  ∀ more, pieces? (template ++ more) = (pieces? more).map (pieces ++ ·)

section

variable {front back : List Char} {first second : List Piece}

theorem HasPieces.append (h : HasPieces front first) (h' : HasPieces back second) :
    HasPieces (front ++ back) (first ++ second) := by
  intro more
  rw [List.append_assoc, h, h', Option.map_map]
  simp [Function.comp_def, List.append_assoc]

theorem HasPieces.pieces? (h : HasPieces front first) : Template.pieces? front = some first := by
  have hAlone := h []
  rw [List.append_nil, show Template.pieces? [] = some [] by simp [Template.pieces?]] at hAlone
  simpa using hAlone

end

theorem hasPieces_nil : HasPieces [] [] := by
  intro more
  simp

theorem hasPieces_char {c : Char} (h : ¬ IsBrace c) : HasPieces [c] [.char c] := by
  intro more
  obtain ⟨notOpen, notClose⟩ := not_or.mp h
  rw [List.singleton_append, pieces?.eq_def]
  simp [notOpen, notClose]

/-- A brace that is written twice is a part of the text. -/
theorem hasPieces_brace {c : Char} (h : IsBrace c) : HasPieces [c, c] [.char c] := by
  intro more
  rw [List.cons_append, List.singleton_append]
  obtain rfl | rfl := h <;> simp [pieces?]

theorem variableName?_append {name : List Char} (h : NoBraces name) (more : List Char) :
    variableName? (name ++ '\x7d' :: more) = some (name, more) := by
  induction name with
  | nil => simp [variableName?]
  | cons c name ih =>
    obtain ⟨hHead, hName⟩ := List.forall_mem_cons.mp h
    obtain ⟨notOpen, notClose⟩ := not_or.mp hHead
    rw [List.cons_append, variableName?, if_neg notClose, if_neg notOpen, ih hName]
    rfl

theorem hasPieces_variable {c : Char} {name : List Char} (h : NoBraces (c :: name)) :
    HasPieces ('\x7b' :: c :: name ++ ['\x7d']) [.variable (String.ofList (c :: name))] := by
  intro more
  have hName := variableName?_append h more
  have notOpen : c ≠ '\x7b' := fun hOpen => h c List.mem_cons_self (.inl hOpen)
  rw [List.cons_append] at hName
  simp only [List.cons_append, List.append_assoc, List.nil_append]
  rw [pieces?]
  simp only [if_true, if_neg notOpen]
  split
  · rename_i none
    rw [hName] at none
    cases none
  · rename_i found
    rw [hName] at found
    cases found
    rfl

/-! ### Templates of texts -/

/-- The template is read as the text. -/
def Says (template text : String) : Prop := HasPieces template.toList (text.toList.map .char)

theorem says_empty : Says "" "" := hasPieces_nil

theorem Says.append {front back text more : String} (h : Says front text)
    (h' : Says back more) : Says (front ++ back) (text ++ more) := by
  unfold Says
  rw [String.toList_append, String.toList_append, List.map_append]
  exact HasPieces.append h h'

/-- A text without braces stands for itself. -/
theorem says_self {text : String} (h : NoBraces text.toList) : Says text text := by
  unfold Says
  generalize text.toList = cs at h
  induction cs with
  | nil => exact hasPieces_nil
  | cons c cs ih =>
    obtain ⟨hHead, hTail⟩ := List.forall_mem_cons.mp h
    exact (hasPieces_char hHead).append (ih hTail)

@[simp]
theorem escape_nil : escape [] = [] := rfl

/-- To double one brace and then the other is to double each once: what the first adds is not what the
second looks for. -/
theorem escape_cons (c : Char) (cs : List Char) :
    escape (c :: cs) = (if IsBrace c then [c, c] else [c]) ++ escape cs := by
  simp only [escape, double, List.flatMap_cons, List.flatMap_append]
  by_cases hOpen : c = '\x7b'
  · subst hOpen
    simp [IsBrace]
  · by_cases hClose : c = '\x7d' <;> simp [IsBrace, hOpen, hClose]

theorem says_escapeText (text : String) : Says (escapeText text) text := by
  unfold Says
  rw [escapeText, String.toList_ofList]
  induction text.toList with
  | nil => exact hasPieces_nil
  | cons c cs ih =>
    rw [escape_cons, List.map_cons]
    by_cases brace : IsBrace c
    · rw [if_pos brace]
      exact (hasPieces_brace brace).append ih
    · rw [if_neg brace]
      exact (hasPieces_char brace).append ih

/-! ### Filling in -/

theorem fill_chars (values : List (String × String)) (cs : List Char) (pieces : List Piece) :
    fill values (cs.map .char ++ pieces) = (fill values pieces).map (cs ++ ·) := by
  induction cs with
  | nil => simp
  | cons c cs ih =>
    rw [List.map_cons, List.cons_append, fill, ih, Option.map_map]
    rfl

theorem format?_of_says {template text : String} (h : Says template text)
    (values : List (String × String)) : format? template values = some text := by
  have hFill := fill_chars values text.toList []
  rw [List.append_nil] at hFill
  simp [format?, HasPieces.pieces? h, hFill, fill]

theorem variableNames_chars (cs : List Char) (pieces : List Piece) :
    variableNames (cs.map .char ++ pieces) = variableNames pieces := by
  have hNone : (cs.map Piece.char).filterMap Piece.name? = [] := by
    rw [List.filterMap_map]
    exact List.filterMap_eq_nil_iff.mpr fun _ _ => rfl
  rw [variableNames, List.filterMap_append, hNone, List.nil_append, variableNames]

end Template

/-! ### Messages -/

namespace Prompt

open Template

/-- A part of a message, under its title. -/
structure Section where
  title : String
  body : String

def Section.text (s : Section) : String := "# " ++ s.title ++ "\n\n" ++ s.body ++ "\n"

/-- What is to be done, and its description if there is one. -/
def order (command description : String) : String :=
  if description = "" then "Execute the " ++ command ++ " directive."
  else "Execute the " ++ command ++ " directive. " ++ description

/-- A line for each modifier, if there are any. -/
def modifierSections (modifiers : Table Setting) : List Section :=
  if modifiers.entries = [] then []
  else [⟨"Modifiers", "\n".intercalate
    (modifiers.entries.map fun e => "- " ++ e.1 ++ ": " ++ e.2.text)⟩]

/-- The schema of the answer, if it has one. -/
def outputSections (schema : Option String) : List Section :=
  schema.toList.map fun schema =>
    ⟨"Output", "Respond with JSON matching this schema:\n\n" ++ schema⟩

/-- What a model is told, with the input at the end. -/
def sections (command description : String) (modifiers : Table Setting) (schema : Option String)
    (input : String) : List Section :=
  [⟨"Task", order command description⟩] ++ modifierSections modifiers ++ outputSections schema
    ++ [⟨"Input", input⟩]

/-- The sections with a free line in front of each but the first. -/
def message (sections : List Section) : String := "\n".intercalate (sections.map Section.text)

theorem message_cons (s : Section) (more : List Section) :
    message (s :: more) = s.text ++ String.join (more.map fun next => "\n" ++ next.text) := by
  induction more generalizing s with
  | nil => simp [message]
  | cons next more ih =>
    have hRest := ih next
    simp only [message, List.map_cons, String.intercalate_cons_cons, String.join_cons] at hRest ⊢
    rw [hRest]
    simp [String.append_assoc]

/-! ### The templates of the sections -/

theorem says_taskSection (command description : String) :
    Says (taskSection command description) (Section.text ⟨"Task", order command description⟩) := by
  have hOrder : (if description.isEmpty then "Execute the " ++ command ++ " directive."
      else "Execute the " ++ command ++ " directive." ++ " " ++ description) =
      order command description := by
    by_cases none : description = "" <;> simp [order, none, String.append_assoc]
  rw [taskSection, hOrder, Section.text]
  exact ((says_self (by decide)).append (says_escapeText _)).append (says_self (by decide))

/-- A section behind another. `lead` is what is in front of its body. -/
theorem says_next {lead title template body : String} (titled : lead = "\n# " ++ title ++ "\n\n")
    (plain : NoBraces lead.toList) (h : Says template body) :
    Says (lead ++ template ++ "\n") ("\n" ++ Section.text ⟨title, body⟩) := by
  have hText : "\n" ++ Section.text ⟨title, body⟩ = lead ++ body ++ "\n" := by
    have hLead : "\n" ++ "# " = "\n# " := by decide
    rw [titled, ← hLead, Section.text]
    simp only [String.append_assoc]
  rw [hText]
  exact ((says_self plain).append h).append (says_self (by decide))

theorem says_modifierSection (modifiers : Table Setting) :
    Says (modifierSection modifiers)
      (String.join ((modifierSections modifiers).map fun next => "\n" ++ next.text)) := by
  unfold modifierSection modifierSections
  by_cases none : modifiers.entries = []
  · rw [if_pos (by simpa using none), if_pos none]
    exact says_empty
  · rw [if_neg (by simpa using none), if_neg none, List.map_singleton, String.join_cons,
      String.join_nil, String.append_empty]
    exact says_next (by decide) (by decide) (says_escapeText (renderSettings modifiers))

theorem output_lead : "\n# Output\n\n" ++ "Respond with JSON matching this schema:\n\n" =
    "\n# Output\n\nRespond with JSON matching this schema:\n\n" := by
  decide +kernel

theorem says_outputSection (schema : Option String) :
    Says (outputSection schema)
      (String.join ((outputSections schema).map fun next => "\n" ++ next.text)) := by
  cases schema with
  | none => exact says_empty
  | some schema =>
    have hLine : Says "Respond with JSON matching this schema:\n\n"
        "Respond with JSON matching this schema:\n\n" := says_self (by decide +kernel)
    have hBody := hLine.append (says_escapeText schema)
    have hSection := @says_next "\n# Output\n\n" "Output" _ _ (by decide) (by decide) hBody
    rw [← String.append_assoc, output_lead] at hSection
    rw [outputSections, Option.toList_some, List.map_singleton, List.map_singleton,
      String.join_cons, String.join_nil, String.append_empty]
    exact hSection

theorem hasPieces_inputSection :
    HasPieces inputSection.toList ("\n# Input\n\n".toList.map .char
      ++ [.variable inputVariable, .char '\n']) := by
  have hTitle : HasPieces _ _ := @says_self "\n# Input\n\n" (by decide)
  have hVariable := @hasPieces_variable 'd' "irective_input".toList (by decide)
  have hEnd := hasPieces_char (c := '\n') (by decide)
  exact HasPieces.append hTitle (hVariable.append hEnd)

/-! ### The messages -/

/-- What stands in front of the input. -/
def front (command description : String) (modifiers : Table Setting) (schema : Option String) :
    String :=
  Section.text ⟨"Task", order command description⟩
    ++ String.join ((modifierSections modifiers ++ outputSections schema).map
      fun next => "\n" ++ next.text)
    ++ "\n# Input\n\n"

theorem message_sections (command description : String) (modifiers : Table Setting)
    (schema : Option String) (input : String) :
    message (sections command description modifiers schema input) =
      front command description modifiers schema ++ input ++ "\n" := by
  unfold sections front
  have hInput : "\n" ++ Section.text ⟨"Input", input⟩ = "\n# Input\n\n" ++ input ++ "\n" := by
    have hLead : "\n# Input\n\n" = "\n" ++ ("# " ++ "Input" ++ "\n\n") := by decide
    rw [hLead, Section.text]
    simp only [String.append_assoc]
  rw [List.append_assoc, List.append_assoc, List.singleton_append, message_cons,
    ← List.append_assoc, List.map_append, String.join_append, List.map_singleton,
    String.join_cons, String.join_nil, String.append_empty, hInput]
  simp only [String.append_assoc]

variable (system command description : String) (modifiers : Table Setting)
  (schema : Option String)

theorem pieces?_human :
    pieces? (assemble system command description modifiers schema).human.toList =
      some ((front command description modifiers schema).toList.map .char
        ++ [.variable inputVariable, .char '\n']) := by
  have hTexts : HasPieces _ _ := ((says_taskSection command description).append
    (says_modifierSection modifiers)).append (says_outputSection schema)
  have hAll := (hTexts.append hasPieces_inputSection).pieces?
  rw [assemble, String.toList_append, hAll, front]
  simp only [List.map_append, String.join_append, String.toList_append, String.append_assoc,
    List.append_assoc]

/-- **The messages hold the texts as they are.** Whatever braces there are in the system text, the
command, its description, the modifiers, the schema of the answer and the input, the templates have
the one variable for the input, and the messages are the system text and the sections with nothing
changed. -/
theorem assemble_verbatim :
    (assemble system command description modifiers schema).variableNames? = some [inputVariable] ∧
    ∀ input, (assemble system command description modifiers schema).messages? input =
      some [⟨.system, system⟩,
        ⟨.human, message (sections command description modifiers schema input)⟩] := by
  have hSystem := HasPieces.pieces? (says_escapeText system)
  have hHuman := pieces?_human system command description modifiers schema
  constructor
  · have hNames := variableNames_chars system.toList
      ((front command description modifiers schema).toList.map .char
        ++ [.variable inputVariable, .char '\n'])
    rw [variableNames_chars (front command description modifiers schema).toList] at hNames
    unfold variableNames?
    rw [hHuman]
    simp only [assemble, hSystem]
    exact congrArg some hNames
  · intro input
    have hFill := fill_chars [(inputVariable, input)]
      (front command description modifiers schema).toList [.variable inputVariable, .char '\n']
    have hMessage : format? (assemble system command description modifiers schema).human
        [(inputVariable, input)] =
          some (message (sections command description modifiers schema input)) := by
      rw [format?, hHuman, message_sections]
      simp [hFill, fill, String.append_assoc]
    have hSystemText : format? (assemble system command description modifiers schema).system
        [(inputVariable, input)] = some system := format?_of_says (says_escapeText system) _
    rw [messages?, hSystemText, hMessage]
    rfl

end Prompt

end Directive
