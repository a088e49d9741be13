import Directive.Grammar.Basic

/-!
# The built-in commands
-/

namespace Directive.Grammar

def lengths : List String := ["short", "medium", "long"]

def tones : List String :=
  ["formal", "casual", "neutral", "persuasive", "friendly", "technical", "humorous"]

def audienceLevels : List String := ["child", "beginner", "intermediate", "expert"]

def outputFormats : List String :=
  ["summary", "detailed", "bullets", "table", "json", "markdown", "prose"]

def comparisonCriteria : List String :=
  ["price", "cost", "performance", "features", "services", "support", "security", "scalability",
   "usability", "reliability", "quality", "ecosystem"]

def oneOf (choices : List String) : Domain := .choice (sortedSet choices)

def weightsOf (keys : List String) : Domain := .weights (sortedSet keys)

def between (minimum maximum : Int) : Domain :=
  .range (Binary64.ofInt minimum) (Binary64.ofInt maximum)

def builtinSchema (name label description : String) (modifiers : List (String × Domain)) :
    Schema :=
  { name, slotLabel := some label, description, modifiers := Table.ofList modifiers }

def builtinSchemas : List Schema :=
  [ builtinSchema "ANALYZE" "analysis"
      "Examine the input and report findings for the requested focus."
      [("focus", oneOf ["sentiment", "thematic", "structural", "statistical", "technical",
                         "linguistic", "competitive", "risk"]),
       ("depth", oneOf ["surface", "standard", "deep"]),
       ("output", oneOf outputFormats)],
    builtinSchema "COMPARE" "comparison"
      "Compare the given items against each other."
      [("weight", weightsOf comparisonCriteria),
       ("criteria", .listOf .freeText),
       ("format", oneOf ["table", "prose", "matrix", "bullets"])],
    builtinSchema "SUMMARIZE" "summary"
      "Condense the input while keeping its key points."
      [("length", oneOf lengths),
       ("style", oneOf ["executive", "technical", "casual", "academic", "bullet"]),
       ("max_words", between 10 5000),
       ("focus", .freeText)],
    builtinSchema "EVALUATE" "evaluation"
      "Assess the input against criteria and give a verdict."
      [("criteria", .listOf .freeText),
       ("scale", between 1 100),
       ("weight", weightsOf comparisonCriteria),
       ("output", oneOf outputFormats)],
    builtinSchema "REFINE" "refined text"
      "Improve the input without changing its intent."
      [("aspect", .listOf (oneOf ["clarity", "tone", "grammar", "concision", "structure",
                                   "flow"])),
       ("tone", oneOf tones),
       ("iterations", between 1 10)],
    { builtinSchema "CHAIN" "chain results"
        "Run the indented steps in order, feeding results forward." [] with
      requiresInput := false },
    builtinSchema "GENERATE" "generated content"
      "Produce new content from the input prompt."
      [("type", oneOf ["article", "story", "poem", "code", "email", "report", "outline",
                        "list", "ideas"]),
       ("tone", oneOf tones),
       ("length", oneOf lengths),
       ("count", between 1 50),
       ("audience", .freeText)],
    builtinSchema "EXPAND" "expansion"
      "Elaborate on the input with additional detail."
      [("depth", between 1 5),
       ("focus", .listOf .freeText),
       ("examples", oneOf ["none", "some", "many"])],
    builtinSchema "TRANSLATE" "translation"
      "Translate the input into another language or register."
      [("to", .freeText),
       ("from", .freeText),
       ("style", oneOf ["literal", "natural", "formal", "casual", "localized"])],
    builtinSchema "SIMPLIFY" "simplified text"
      "Rewrite the input so it is easier to understand."
      [("level", oneOf audienceLevels),
       ("audience", .freeText),
       ("length", oneOf lengths)],
    builtinSchema "STRUCTURE" "structured content"
      "Organize the input into a clear structure."
      [("format", oneOf ["outline", "table", "json", "yaml", "markdown", "hierarchy",
                          "mindmap"]),
       ("sections", .listOf .freeText)],
    builtinSchema "FORMAT" "formatted output"
      "Render the input in the requested output format."
      [("as", oneOf ["markdown", "json", "yaml", "csv", "html", "table", "plain", "xml"]),
       ("style", .freeText)],
    builtinSchema "OPTIMIZE" "optimization"
      "Improve the input for the stated goals."
      [("for", .listOf (oneOf ["performance", "readability", "cost", "seo", "clarity",
                                "conversion", "memory", "speed", "maintainability"])),
       ("constraints", .freeText),
       ("weight", weightsOf ["performance", "readability", "cost", "clarity", "speed",
                              "memory"])],
    builtinSchema "CONNECT" "connections"
      "Find relationships between the given concepts."
      [("relationship", oneOf ["causal", "temporal", "thematic", "hierarchical", "analogical",
                                "any"]),
       ("domains", .listOf .freeText),
       ("depth", between 1 5)],
    builtinSchema "VISUALIZE" "visualization"
      "Describe or draw a visual representation of the input."
      [("type", oneOf ["flowchart", "diagram", "chart", "timeline", "mindmap", "table",
                        "graph"]),
       ("format", oneOf ["ascii", "mermaid", "description", "svg"])],
    builtinSchema "VALIDATE" "validation"
      "Check the input for correctness against the given rules."
      [("against", .freeText),
       ("criteria", .listOf .freeText),
       ("strict", oneOf ["true", "false"])],
    builtinSchema "DEBUG" "debug report"
      "Locate and explain defects in the input."
      [("language", .freeText),
       ("level", oneOf ["syntax", "logic", "performance", "security", "all"]),
       ("fix", oneOf ["true", "false"])],
    builtinSchema "EXPLAIN" "explanation"
      "Explain the input for the intended audience."
      [("level", oneOf ("eli5" :: audienceLevels)),
       ("format", oneOf ["prose", "steps", "analogy", "example", "qa"]),
       ("length", oneOf lengths)],
    builtinSchema "SEARCH" "search results"
      "Gather information relevant to the query."
      [("scope", oneOf ["web", "academic", "news", "docs", "code", "internal"]),
       ("limit", between 1 100),
       ("timeframe", .freeText),
       ("sources", .listOf .freeText)],
    builtinSchema "DESIGN" "design"
      "Propose a design that satisfies the input requirements."
      [("type", oneOf ["system", "ui", "api", "database", "architecture", "workflow", "schema"]),
       ("constraints", .listOf .freeText),
       ("style", .freeText),
       ("detail", oneOf ["sketch", "standard", "detailed"])]]

/-- The grammar of the built-in commands. -/
def builtin : Grammar := ofSchemas builtinSchemas

end Directive.Grammar
