import R2DTU.Reasoning.EpistemicReasoning

/-!
# What the robot understands and says

Sentences are searched for words with `strstr`: `findWord` is the position of the first occurrence.
The texts are those of the English build (`LANG_DANISH` is 0), which still has the Danish trigger
words and one Danish translation in its answers.

`answerQuestion` answers questions about where a cube is, where an agent believes it is, and where
an agent believes that another one believes it is. Sentences are written into buffers of a fixed
size in the source; here they have no bound.
-/

namespace Reasoning

/-- The position `strstr` finds. -/
def findWord (text word : List Char) : Option ℕ := text.tails.findIdx? word.isPrefixOf

/-- `strstr(text, word) != nullptr`. -/
def hasWord (text : List Char) (word : String) : Bool := (findWord text word.toList).isSome

/-- The text from the first occurrence on. -/
def fromWord (text : List Char) (word : String) : Option (List Char) :=
  (findWord text word.toList).map text.drop

/-- `accepted_sentences`: what the robot understands when it listens. -/
def acceptedSentences : List String :=
  ["\"why did you tell me that?\"", "\"i have come for the red cube?\"",
    "\"i have come for the blue cube?\"", "\"i have come for the green cube?\"",
    "\"where is the red cube?\"", "\"where is the blue cube?\"", "\"where is the green cube?\"",
    "\"where does Hansen believe that the red cube is?\"",
    "\"where does Hansen believe that the blue cube is?\"",
    "\"where does Hansen believe that the green cube is?\"",
    "\"where does Hansen believe that the red cube?\"",
    "\"where does Hansen believe that the blue cube?\"",
    "\"where does Hansen believe that the green cube?\"",
    "\"where does Hansen believe the red cube is?\"",
    "\"where does Hansen believe the blue cube is?\"",
    "\"where does Hansen believe the green cube is?\"",
    "\"where does Hansen believe the red cube to be?\"",
    "\"where does Hansen believe the blue cube to be?\"",
    "\"where does Hansen believe the green cube to be?\""]

/-! ### Texts -/

/-- `L10N_LOOKING_FOR`: told to someone who looks for a cube in the wrong box. -/
def lookingFor (colour box : String) : String :=
  "If you are looking for the " ++ colour ++ " cube. \\pau=750\\ It is now in box " ++ box

/-- `L10N_ANNOUNCE_LOCATION`: told to someone who has asked for a cube. -/
def announceLocation (colour box : String) : String :=
  "The " ++ colour ++ " cube has been moved to box " ++ box

/-- `L10N_EXPLAIN`: told to someone who asks why. -/
def explain (other thing box agent : String) : String :=
  other ++ " has moved the " ++ thing ++ " cube to box " ++ box ++ " \\pau=750\\ while " ++ agent ++
    " was not present."

/-- `L10N_OBJECT_LOOKING_FOR`: told to someone who holds one of two objects that go together. -/
def objectLookingFor (object box : String) : String :=
  "If you are looking for the " ++ object ++ " . \\pau=750\\ It is now in box " ++ box

/-- The colour of a cube. -/
def colourOf (cube : String) : String :=
  if cube = "marker-1" then "red"
  else if cube = "marker-2" then "green"
  else if cube = "marker-3" then "blue"
  else ""

/-- `affordance_map` and `get_matching_affordances`. -/
def getMatchingAffordances (object : String) : String :=
  if object = "knife" then "apple-105"
  else if object = "apple" then "knife"
  else if object = "bottle" then "glass"
  else if object = "glass" then "bottle"
  else ""

/-! ### Questions -/

/-- `colours`: the cubes, in the order in which a sentence is searched for them. -/
def colours : List String := ["red", "green", "blue"]

/-- `"marker-100" + std::string(1, name.back())`. -/
def boxSymbol (name : String) : String := "marker-100" ++ String.ofList name.toList.getLast?.toList

/-- `translate_into_symbol_names`: the name in propositions of what a sentence calls a box or a
cube. -/
def translateIntoSymbolNames (name : String) : String :=
  if "box".toList.isPrefixOf name.toList then boxSymbol name
  else if name = "red" then "marker-1"
  else if name = "green" then "marker-2"
  else if name = "blue" then "marker-3"
  else name

/-- `translate_into_symbol_names_dk`: the same for a sentence in Danish. -/
def translateIntoSymbolNamesDk (name : String) : String :=
  if "kasse".toList.isPrefixOf name.toList then boxSymbol name
  else if name = "røde" then "marker-1"
  else if name = "grønne" then "marker-2"
  else if name = "blå" then "marker-3"
  else name

/-- `inverse_translate` with `inverse_translate_map_en`. -/
def inverseTranslate (name : String) : String :=
  ([("marker-1", "red cube"), ("marker-2", "green cube"), ("marker-3", "blue cube"),
    ("marker-1001", "box 1"), ("marker-1002", "box 2"), ("marker-1003", "box 3"),
    ("marker-1004", "box 4")].lookup name).getD name

/-- `make_predicate("in", object, container)`. -/
def inPredicate (object container : Query) : Query := .predicate "in" [object, container]

/-- The end of the answers: in a box when there is one response, and else in none. -/
def located (article object : String) (response : List String) : String :=
  match response with
  | [box] => article ++ inverseTranslate object ++ " is in " ++ inverseTranslate box
  | _ => article ++ inverseTranslate object ++ " is not in any box"

namespace EpistemicReasoning

variable {L : DelDomain}

/-- The agents a question names, of the two that come after the robot, with their positions. -/
def namedAgents (e : EpistemicReasoning L) (question : List Char) : List (String × ℕ) :=
  ((e.agents.drop 1).take 2).filterMap fun agent ↦
    (findWord question agent.toList).map fun position ↦ (agent, position)

/-- The part of `answer_question` after the colour is known. -/
def answerAbout (e : EpistemicReasoning L) (question : List Char) (object : String) :
    Option String := do
  match e.namedAgents question with
  | [(name₁, pos₁), (name₂, pos₂)] =>
    let (fst, snd) := if pos₁ < pos₂ then (name₁, name₂) else (name₂, name₁)
    let response ← e.query (.believes fst (.believes snd
      (inPredicate (.const (translateIntoSymbolNamesDk object)) (.var "x"))))
    return fst ++ " believes that " ++ snd ++ " believes that " ++ located "the " object response
  | [(name, _)] =>
    let response ← e.query (.believes name
      (inPredicate (.const (translateIntoSymbolNamesDk object)) (.var "x")))
    return name ++ " believes that " ++ located "the " object response
  | _ =>
    let response ← e.query (inPredicate (.const object) (.var "x"))
    return located "The " object response

/-- `answer_question`. A look-up that throws is caught, and the answer is empty. -/
def answerQuestion (e : EpistemicReasoning L) (question : List Char) : String :=
  match colours.find? (hasWord question) with
  | none => ""
  | some colour => (e.answerAbout question (translateIntoSymbolNames colour)).getD ""

end EpistemicReasoning

end Reasoning
