import R2DTU.Library.LongestMatch
import R2DTU.Planner.DomainLoader

/-!
# Reading a domain

The text of a domain goes through a scanner before the grammar sees it. Its rules are tried on the
longest match, so a word that begins with a reserved one is still a name, and an underscore that
begins no definition is skipped like a blank, which makes two names of a name that contains one.

What the scanner makes of a text is described without rules and lengths by `Written`: the two agree
on every text (`yylex_eq_iff`). So tokens that are written out can be read back if their names are
names for the scanner (`yylex_render_iff`).
-/

namespace DomainLoader

open LongestMatch

/-! ### The rules -/

/-- What the scanner returns: the tokens of the grammar, and those that no production uses. -/
inductive Terminal
  | token (token : Token)
  | and
  | or
  | not
  | snazzle
  | type
  | end_
  | float
  | int
  deriving DecidableEq

def skip : List Char → Option Terminal := fun _ ↦ none

def ret (t : Terminal) : List Char → Option Terminal := fun _ ↦ some t

def isLBrack (c : Char) : Bool := c == '(' || c == '[' || c == '{'

def isRBrack (c : Char) : Bool := c == ')' || c == ']' || c == '}'

def definitions : List (List Char × Token) :=
  [("_domain".toList, .domainDef), ("_action".toList, .actionDef), ("_owner".toList, .ownerDef),
    ("_preconditions".toList, .preconditionsDef), ("_effect_add".toList, .effectAddDef),
    ("_effect_delete".toList, .effectDeleteDef), ("_event".toList, .eventDef)]

def reserved : List (List Char × Terminal) :=
  [("AND".toList, .and), ("OR".toList, .or), ("NOT".toList, .not), ("sNaZZle".toList, .snazzle),
    ("type".toList, .type), ("end".toList, .end_)]

/-- How much of a text a number with digits on both sides of a point takes. -/
def floatLength (cs : List Char) : ℕ :=
  match cs.dropWhile Char.isDigit with
  | '.' :: rest =>
    if cs.takeWhile Char.isDigit = [] ∨ rest.takeWhile Char.isDigit = [] then 0
    else (cs.takeWhile Char.isDigit).length + 1 + (rest.takeWhile Char.isDigit).length
  | _ => 0

def nameOf (w : List Char) : Terminal := .token (.name (String.ofList w))

def blankRule : Rule Char Terminal := oneOf (fun c ↦ c == ' ' || c == '\t') skip

def lbrackRule : Rule Char Terminal := oneOf isLBrack (ret (.token .lbrack))

def rbrackRule : Rule Char Terminal := oneOf isRBrack (ret (.token .rbrack))

def equalsRule : Rule Char Terminal := oneOf (· == '=') (ret (.token .equals))

def definitionRule (d : List Char × Token) : Rule Char Terminal := literal d.1 (ret (.token d.2))

def reservedRule (k : List Char × Terminal) : Rule Char Terminal := literal k.1 (ret k.2)

def floatRule : Rule Char Terminal := ⟨floatLength, ret .float⟩

def intRule : Rule Char Terminal := many Char.isDigit (ret .int)

def nameRule : Rule Char Terminal := many Char.isAlphanum fun w ↦ some (nameOf w)

def definitionRules : List (Rule Char Terminal) := definitions.map definitionRule

def wordRules : List (Rule Char Terminal) :=
  reserved.map reservedRule ++ [floatRule, intRule, nameRule]

/-- The last rules: the end of a line, a comma, and any other character. -/
def layoutRules : List (Rule Char Terminal) :=
  [oneOf (· == '\n') skip, oneOf (· == ',') skip, oneOf (· != '\n') skip]

def symbolRules : List (Rule Char Terminal) := [blankRule, lbrackRule, rbrackRule, equalsRule]

/-- The rules of the scanner, in their order. -/
def rules : List (Rule Char Terminal) :=
  symbolRules ++ (definitionRules ++ (wordRules ++ layoutRules))

/-- `yylex`, until the end of the text. -/
def yylex (text : List Char) : List Terminal := scan rules text

/-! ### Texts and what they say -/

/-- What a word is. -/
def wordTerminal (w : List Char) : Terminal :=
  match reserved.find? fun k ↦ k.1 == w with
  | some k => k.2
  | none => if w.all Char.isDigit then .int else nameOf w

/-- A word ends where its characters do. -/
structure IsWord (w text : List Char) : Prop where
  ne_nil : w ≠ []
  alphanum : ∀ c ∈ w, c.isAlphanum
  ends : ∀ c ∈ text.head?, c.isAlphanum = false

/-- A point and a digit. -/
def BeginsFraction : List Char → Prop
  | '.' :: d :: _ => d.isDigit
  | _ => False

/-- What says nothing at its place. -/
structure Ignored (c : Char) (text : List Char) : Prop where
  alphanum : c.isAlphanum = false
  lbrack : isLBrack c = false
  rbrack : isRBrack c = false
  equals : c ≠ '='
  definition : ∀ d ∈ definitions, ¬ d.1 <+: c :: text

/-- **A text and what it says.** -/
inductive Written : List Char → List Terminal → Prop
  | nil : Written [] []
  | ignored {c : Char} {text : List Char} {ts : List Terminal} (hc : Ignored c text)
      (h : Written text ts) : Written (c :: text) ts
  | lbrack {c : Char} {text : List Char} {ts : List Terminal} (hc : isLBrack c)
      (h : Written text ts) : Written (c :: text) (.token .lbrack :: ts)
  | rbrack {c : Char} {text : List Char} {ts : List Terminal} (hc : isRBrack c)
      (h : Written text ts) : Written (c :: text) (.token .rbrack :: ts)
  | equals {text : List Char} {ts : List Terminal} (h : Written text ts) :
      Written ('=' :: text) (.token .equals :: ts)
  | definition {d : List Char × Token} {text : List Char} {ts : List Terminal}
      (hd : d ∈ definitions) (h : Written text ts) : Written (d.1 ++ text) (.token d.2 :: ts)
  | float {whole fraction text : List Char} {ts : List Terminal} (hwhole : whole ≠ [])
      (hwhole' : ∀ c ∈ whole, c.isDigit) (hfraction : fraction ≠ [])
      (hfraction' : ∀ c ∈ fraction, c.isDigit) (hends : ∀ c ∈ text.head?, c.isDigit = false)
      (h : Written text ts) : Written (whole ++ '.' :: (fraction ++ text)) (.float :: ts)
  | word {w text : List Char} {ts : List Terminal} (hw : IsWord w text)
      (hnumber : (∀ c ∈ w, c.isDigit) → ¬ BeginsFraction text) (h : Written text ts) :
      Written (w ++ text) (wordTerminal w :: ts)

/-! ### How much the rules match -/

variable {c : Char} {w cs text : List Char} {ts : List Terminal}

/-- The characters of the first four rules. -/
def symbolChars : List Char := [' ', '\t', '(', '[', '{', ')', ']', '}', '=']

theorem isAlphanum_of_mem_symbolChars (hc : c ∈ symbolChars) : c.isAlphanum = false := by
  have hall : symbolChars.all (fun c ↦ !c.isAlphanum) = true := rfl
  exact Bool.not_eq_true' _ ▸ List.all_eq_true.1 hall c hc

theorem not_mem_symbolChars (hc : c.isAlphanum) : c ∉ symbolChars :=
  fun hmem ↦ Bool.false_ne_true ((isAlphanum_of_mem_symbolChars hmem).symm.trans hc)

theorem isAlphanum_of_mem_reserved {k : List Char × Terminal} (hk : k ∈ reserved) :
    ∀ c ∈ k.1, c.isAlphanum := by
  have hall : reserved.all (fun k ↦ k.1.all Char.isAlphanum) = true := rfl
  exact List.all_eq_true.1 (List.all_eq_true.1 hall k hk)

theorem symbolRules_length (hc : c ∉ symbolChars) : ∀ r ∈ symbolRules, r.length (c :: cs) = 0 := by
  simp only [symbolChars, List.mem_cons, List.not_mem_nil, or_false, not_or] at hc
  simp [symbolRules, blankRule, lbrackRule, rbrackRule, equalsRule, oneOf_length_cons, isLBrack,
    isRBrack, hc]

theorem head?_of_mem_definitions : ∀ d ∈ definitions, d.1.head? = some '_' := by decide

theorem definitionRules_length (hc : c ≠ '_') :
    ∀ r ∈ definitionRules, r.length (c :: cs) = 0 := by
  simp only [definitionRules, List.forall_mem_map]
  exact fun d hd ↦ literal_length_cons (head?_of_mem_definitions d hd) hc.symm

theorem isDigit_eq_false (hc : c.isAlphanum = false) : c.isDigit = false := by
  rw [Char.isAlphanum, Bool.or_eq_false_iff] at hc
  exact hc.2

theorem floatLength_cons (hc : c.isDigit = false) : floatLength (c :: cs) = 0 := by
  rw [floatLength]
  split
  · exact if_pos (.inl (List.takeWhile_cons_of_neg (by rw [hc]; exact Bool.false_ne_true)))
  · rfl

/-- Words begin with a letter or a digit. -/
theorem wordRules_length (hc : c.isAlphanum = false) :
    ∀ r ∈ wordRules, r.length (c :: cs) = 0 := by
  have hne : ∀ k ∈ reserved, k.1 ≠ [] := by decide
  simp only [wordRules, List.forall_mem_append, List.forall_mem_map, List.forall_mem_cons]
  refine ⟨fun k hk ↦ ?_, floatLength_cons (isDigit_eq_false hc),
    many_length_cons (isDigit_eq_false hc), many_length_cons hc, nofun⟩
  obtain ⟨a, w, hw⟩ := List.exists_cons_of_ne_nil (hne k hk)
  have halphanum := isAlphanum_of_mem_reserved hk a (hw ▸ List.mem_cons_self)
  refine literal_length_cons (List.head?_eq_some_iff.2 ⟨w, hw⟩) ?_
  rintro rfl
  exact Bool.false_ne_true (hc.symm.trans halphanum)

theorem layoutRules_length (cs : List Char) : ∀ r ∈ layoutRules, r.length cs ≤ 1 := by
  simp only [layoutRules, List.forall_mem_cons]
  exact ⟨oneOf_length_le cs, oneOf_length_le cs, oneOf_length_le cs, nofun⟩

/-! ### One lexeme -/

/-- Whatever matches an ignored character takes nothing else, and skips it. -/
theorem Ignored.length_eq_one (hc : Ignored c text) : ∀ r ∈ rules,
    0 < r.length (c :: text) → r.length (c :: text) = 1 ∧ r.action = skip := by
  have hzero : ∀ {r : Rule Char Terminal}, r.length (c :: text) = 0 →
      0 < r.length (c :: text) → r.length (c :: text) = 1 ∧ r.action = skip :=
    fun h hpos ↦ absurd h (Nat.pos_iff_ne_zero.1 hpos)
  have hone : ∀ p : Char → Bool, 0 < (oneOf p skip).length (c :: text) →
      (oneOf p skip).length (c :: text) = 1 ∧ (oneOf p skip).action = skip :=
    fun p hpos ↦ ⟨Nat.le_antisymm (oneOf_length_le _) hpos, rfl⟩
  have hdefinition : ∀ d ∈ definitions, (definitionRule d).length (c :: text) = 0 :=
    fun d hd ↦ literal_length_eq_zero (hc.definition d hd)
  simp only [rules, symbolRules, definitionRules, layoutRules, List.forall_mem_append,
    List.forall_mem_cons, List.forall_mem_map]
  refine ⟨⟨hone _, hzero (if_neg ?_), hzero (if_neg ?_), hzero (if_neg ?_), nofun⟩,
    fun d hd ↦ hzero (hdefinition d hd), fun r hr ↦ hzero (wordRules_length hc.alphanum r hr),
    hone _, hone _, hone _, nofun⟩
  · exact Bool.not_eq_true _ ▸ hc.lbrack
  · exact Bool.not_eq_true _ ▸ hc.rbrack
  · exact fun h ↦ hc.equals (beq_iff_eq.1 h)

/-- A character ends a line, or the last rule takes it. -/
theorem exists_pick_rules (c : Char) (text : List Char) :
    ∃ r, pick rules ([c] ++ text) = some r := by
  have hmatch : ∀ p : Char → Bool, oneOf p skip ∈ layoutRules → p c →
      ∃ r, pick rules ([c] ++ text) = some r := by
    intro p hmem hp
    refine exists_pick_eq_some (List.mem_append_right _ (List.mem_append_right _
      (List.mem_append_right _ hmem))) ?_
    rw [List.singleton_append, oneOf_length_cons, if_pos hp]
    exact Nat.zero_lt_one
  by_cases hnewline : c = '\n'
  · exact hmatch (· == '\n') (.head _) (beq_iff_eq.2 hnewline)
  · exact hmatch (· != '\n') (.tail _ (.tail _ (.head _))) (bne_iff_ne.2 hnewline)

theorem yylex_ignored (hc : Ignored c text) : yylex (c :: text) = yylex text := by
  obtain ⟨r, hpick⟩ := exists_pick_rules c text
  obtain ⟨hlen, hact⟩ := hc.length_eq_one r (mem_of_pick_eq_some hpick)
    (length_pos_of_pick_eq_some hpick)
  have hscan := scan_append (List.cons_ne_nil c []) hpick hlen
  rw [hact] at hscan
  exact hscan

/-- Only the last rules match more than nothing behind the one that takes a symbol. -/
theorem yylex_symbol {before after : List (Rule Char Terminal)} {p : Char → Bool} {t : Terminal}
    (hrules : rules = before ++ oneOf p (ret t) :: after) (hp : p c) (hc : c ∈ symbolChars)
    (hbefore : ∀ r ∈ before, r.length (c :: text) = 0) : yylex (c :: text) = t :: yylex text := by
  have halphanum := isAlphanum_of_mem_symbolChars hc
  have hunderscore : c ≠ '_' := by
    rintro rfl
    exact absurd hc (by decide)
  have hle : ∀ r ∈ rules, r.length (c :: text) ≤ 1 := by
    simp only [rules, symbolRules, List.forall_mem_append, List.forall_mem_cons]
    exact ⟨⟨oneOf_length_le _, oneOf_length_le _, oneOf_length_le _, oneOf_length_le _, nofun⟩,
      fun r hr ↦ (definitionRules_length hunderscore r hr).trans_le (Nat.zero_le 1),
      fun r hr ↦ (wordRules_length halphanum r hr).trans_le (Nat.zero_le 1),
      layoutRules_length _⟩
  refine scan_longest (w := [c]) hrules (List.cons_ne_nil c []) (if_pos hp) ?_ ?_
  · exact fun r hr ↦ (hbefore r hr).trans_lt Nat.zero_lt_one
  · intro r hr
    exact hle r (hrules ▸ List.mem_append_right _ (List.mem_cons_of_mem _ hr))

theorem yylex_lbrack (hc : isLBrack c) : yylex (c :: text) = .token .lbrack :: yylex text := by
  have hchar : c = '(' ∨ c = '[' ∨ c = '{' := by simpa [isLBrack, or_assoc] using hc
  refine yylex_symbol (show rules = [blankRule] ++ lbrackRule :: _ from rfl) hc ?_
    (List.forall_mem_singleton.2 ?_)
  · rcases hchar with rfl | rfl | rfl <;> decide
  · rcases hchar with rfl | rfl | rfl <;> rfl

theorem yylex_rbrack (hc : isRBrack c) : yylex (c :: text) = .token .rbrack :: yylex text := by
  have hchar : c = ')' ∨ c = ']' ∨ c = '}' := by simpa [isRBrack, or_assoc] using hc
  refine yylex_symbol (show rules = [blankRule, lbrackRule] ++ rbrackRule :: _ from rfl) hc ?_
    (List.forall_mem_cons.2 ⟨?_, List.forall_mem_singleton.2 ?_⟩)
  · rcases hchar with rfl | rfl | rfl <;> decide
  · rcases hchar with rfl | rfl | rfl <;> rfl
  · rcases hchar with rfl | rfl | rfl <;> rfl

theorem yylex_equals : yylex ('=' :: text) = .token .equals :: yylex text := by
  refine yylex_symbol (show rules = [blankRule, lbrackRule, rbrackRule] ++ equalsRule :: _ from rfl)
    rfl (by decide) ?_
  simp only [List.forall_mem_cons]
  exact ⟨rfl, rfl, rfl, nofun⟩

/-- No definition begins another one, so only its own rule matches where one is written. -/
theorem definitionRule_length_eq_zero {d d' : List Char × Token} (hd : d ∈ definitions)
    (hd' : d' ∈ definitions) (hne : d' ≠ d) : (definitionRule d').length (d.1 ++ text) = 0 := by
  have hapart : ∀ d ∈ definitions, ∀ d' ∈ definitions, d'.1 <+: d.1 → d' = d := by decide
  refine literal_length_eq_zero fun hpre ↦ hne ?_
  rcases List.prefix_or_prefix_of_prefix hpre (List.prefix_append d.1 text) with h | h
  · exact hapart d hd d' hd' h
  · exact (hapart d' hd' d hd h).symm

theorem yylex_definition {d : List Char × Token} (hd : d ∈ definitions) :
    yylex (d.1 ++ text) = .token d.2 :: yylex text := by
  obtain ⟨w, hw⟩ := List.head?_eq_some_iff.1 (head?_of_mem_definitions d hd)
  have hpos : 0 < d.1.length := by
    rw [hw]
    exact Nat.succ_pos _
  obtain ⟨before, after, hsplit, hnot⟩ := List.eq_append_cons_of_mem hd
  have hrules : rules = (symbolRules ++ before.map definitionRule) ++
      definitionRule d :: (after.map definitionRule ++ (wordRules ++ layoutRules)) := by
    rw [rules, definitionRules, hsplit, List.map_append, List.map_cons]
    simp only [List.append_assoc, List.cons_append]
  refine scan_longest hrules (List.length_pos_iff.1 hpos) (literal_length_append d.1 text) ?_ ?_
  · simp only [List.forall_mem_append, List.forall_mem_map]
    refine ⟨fun r hr ↦ ?_, fun d' hd' ↦ ?_⟩
    · rw [hw, List.cons_append, symbolRules_length (by decide) r hr]
      exact Nat.succ_pos _
    · rwa [definitionRule_length_eq_zero hd (hsplit ▸ List.mem_append_left _ hd')
        fun h ↦ hnot (h ▸ hd')]
  · simp only [List.forall_mem_append, List.forall_mem_map]
    refine ⟨fun d' hd' ↦ ?_, fun r hr ↦ ?_, fun r hr ↦ (layoutRules_length _ r hr).trans hpos⟩
    · by_cases h : d' = d
      · rw [h]
        exact (literal_length_append d.1 text).le
      · rw [definitionRule_length_eq_zero hd
          (hsplit ▸ List.mem_append_right _ (List.mem_cons_of_mem _ hd')) h]
        exact Nat.zero_le _
    · rw [hw, List.cons_append, wordRules_length (by decide) r hr]
      exact Nat.zero_le _

theorem intRule_length_lt (hdigits : ¬ ∀ c ∈ w, c.isDigit) :
    intRule.length (w ++ text) < w.length := by
  rw [not_forall] at hdigits
  obtain ⟨c, hdigit⟩ := hdigits
  rw [Classical.not_imp, Bool.not_eq_true] at hdigit
  exact many_length_lt ⟨c, hdigit⟩ text

section word

variable (hw : IsWord w text)

include hw

theorem IsWord.symbolRules_length : ∀ r ∈ symbolRules, r.length (w ++ text) = 0 := by
  obtain ⟨c, w, rfl⟩ := List.exists_cons_of_ne_nil hw.ne_nil
  exact DomainLoader.symbolRules_length (not_mem_symbolChars (hw.alphanum c List.mem_cons_self))

theorem IsWord.definitionRules_length : ∀ r ∈ definitionRules, r.length (w ++ text) = 0 := by
  obtain ⟨c, w, rfl⟩ := List.exists_cons_of_ne_nil hw.ne_nil
  refine DomainLoader.definitionRules_length ?_
  rintro rfl
  exact absurd (hw.alphanum '_' List.mem_cons_self) (by decide)

theorem IsWord.layoutRules_length : ∀ r ∈ layoutRules, r.length (w ++ text) ≤ w.length :=
  fun r hr ↦ (DomainLoader.layoutRules_length _ r hr).trans (List.length_pos_iff.2 hw.ne_nil)

theorem IsWord.reservedRule_length_lt {k : List Char × Terminal} (hk : k ∈ reserved)
    (hne : k.1 ≠ w) : (reservedRule k).length (w ++ text) < w.length :=
  literal_length_lt (isAlphanum_of_mem_reserved hk) hw.ne_nil hw.alphanum hw.ends hne

theorem IsWord.reservedRule_length_le {k : List Char × Terminal} (hk : k ∈ reserved) :
    (reservedRule k).length (w ++ text) ≤ w.length := by
  by_cases hkw : k.1 = w
  · rw [← hkw]
    exact (literal_length_append k.1 text).le
  · exact (hw.reservedRule_length_lt hk hkw).le

theorem IsWord.intRule_length_le : intRule.length (w ++ text) ≤ w.length := by
  by_cases hdigits : ∀ c ∈ w, c.isDigit
  · exact (many_length_append hdigits fun c hc ↦ isDigit_eq_false (hw.ends c hc)).le
  · exact (intRule_length_lt hdigits).le

theorem IsWord.nameRule_length : nameRule.length (w ++ text) = w.length :=
  many_length_append hw.alphanum hw.ends

/-- A point behind the digits of a word is behind the word, so all of it is digits. -/
theorem IsWord.digits_of_point {rest : List Char}
    (hdrop : (w ++ text).dropWhile Char.isDigit = '.' :: rest) :
    (∀ c ∈ w, c.isDigit) ∧ text = '.' :: rest := by
  by_cases hdigits : ∀ c ∈ w, c.isDigit
  · refine ⟨hdigits, ?_⟩
    rw [List.dropWhile_append_of_pos hdigits] at hdrop
    rcases text with - | ⟨c, text⟩
    · exact absurd hdrop nofun
    · have hc := isDigit_eq_false (hw.ends c rfl)
      rwa [List.dropWhile_cons_of_neg (by rw [hc]; exact Bool.false_ne_true)] at hdrop
  · exfalso
    have hne : w.dropWhile Char.isDigit ≠ [] := fun h ↦ hdigits (List.dropWhile_eq_nil_iff.1 h)
    rw [List.dropWhile_append, if_neg (by rwa [List.isEmpty_iff])] at hdrop
    obtain ⟨c, w', hw'⟩ := List.exists_cons_of_ne_nil hne
    rw [hw', List.cons_append] at hdrop
    have hpoint : '.' ∈ w := by
      refine (List.dropWhile_sublist Char.isDigit).subset ?_
      rw [hw', (List.cons.inj hdrop).1]
      exact List.mem_cons_self
    exact absurd (hw.alphanum '.' hpoint) (by decide)

theorem IsWord.floatLength (hnumber : (∀ c ∈ w, c.isDigit) → ¬ BeginsFraction text) :
    floatLength (w ++ text) = 0 := by
  rw [DomainLoader.floatLength]
  split
  · rename_i rest hdrop
    obtain ⟨hdigits, rfl⟩ := hw.digits_of_point hdrop
    refine if_pos (.inr ?_)
    rcases rest with - | ⟨d, rest⟩
    · rfl
    · exact List.takeWhile_cons_of_neg (hnumber hdigits)
  · rfl

end word

/-- The first rules do not match a word. -/
theorem IsWord.earlierRules_length_lt (hw : IsWord w text) :
    ∀ r ∈ symbolRules ++ definitionRules, r.length (w ++ text) < w.length := by
  have hpos := List.length_pos_iff.2 hw.ne_nil
  simp only [List.forall_mem_append]
  exact ⟨fun r hr ↦ (hw.symbolRules_length r hr).trans_lt hpos,
    fun r hr ↦ (hw.definitionRules_length r hr).trans_lt hpos⟩

theorem yylex_reserved {k : List Char × Terminal} (hw : IsWord w text)
    (hnumber : (∀ c ∈ w, c.isDigit) → ¬ BeginsFraction text)
    (hfind : reserved.find? (fun k ↦ k.1 == w) = some k) :
    yylex (w ++ text) = k.2 :: yylex text := by
  obtain ⟨hk, before, after, hsplit, hbefore⟩ := List.find?_eq_some_iff_append.1 hfind
  have hkw : k.1 = w := beq_iff_eq.1 hk
  have hrules : rules = (symbolRules ++ definitionRules ++ before.map reservedRule) ++
      reservedRule k :: (after.map reservedRule ++
        (floatRule :: intRule :: nameRule :: layoutRules)) := by
    rw [rules, wordRules, hsplit]
    simp only [List.map_append, List.map_cons, List.append_assoc, List.cons_append,
      List.nil_append]
  refine scan_longest hrules hw.ne_nil (hkw ▸ literal_length_append k.1 text) ?_ ?_
  · refine List.forall_mem_append.2
      ⟨hw.earlierRules_length_lt, List.forall_mem_map.2 fun k' hk' ↦ ?_⟩
    refine hw.reservedRule_length_lt (hsplit ▸ List.mem_append_left _ hk') ?_
    have hne := hbefore k' hk'
    exact fun h ↦ by simp [h] at hne
  · simp only [List.forall_mem_append, List.forall_mem_cons, List.forall_mem_map]
    refine ⟨fun k' hk' ↦ ?_, (hw.floatLength hnumber).trans_le (Nat.zero_le _),
      hw.intRule_length_le, hw.nameRule_length.le, hw.layoutRules_length⟩
    exact hw.reservedRule_length_le
      (hsplit ▸ List.mem_append_right _ (List.mem_cons_of_mem _ hk'))

section unreserved

variable (hw : IsWord w text) (hnumber : (∀ c ∈ w, c.isDigit) → ¬ BeginsFraction text)
  (hfind : reserved.find? (fun k ↦ k.1 == w) = none)

include hw hnumber hfind

/-- Of a word that is not reserved, nothing before the rules of numbers and names takes all. -/
theorem IsWord.reservedRules_length_lt :
    ∀ r ∈ symbolRules ++ definitionRules ++ (reserved.map reservedRule ++ [floatRule]),
      r.length (w ++ text) < w.length := by
  have hfloat := (hw.floatLength hnumber).trans_lt (List.length_pos_iff.2 hw.ne_nil)
  refine List.forall_mem_append.2 ⟨hw.earlierRules_length_lt, List.forall_mem_append.2
    ⟨List.forall_mem_map.2 fun k hk ↦ ?_, List.forall_mem_singleton.2 hfloat⟩⟩
  have hne := List.find?_eq_none.1 hfind k hk
  exact hw.reservedRule_length_lt hk fun h ↦ hne (beq_iff_eq.2 h)

theorem yylex_int (hdigits : ∀ c ∈ w, c.isDigit) : yylex (w ++ text) = .int :: yylex text := by
  have hrules : rules = symbolRules ++ definitionRules ++ (reserved.map reservedRule ++
      [floatRule]) ++ intRule :: (nameRule :: layoutRules) := by simp [rules, wordRules]
  refine scan_longest hrules hw.ne_nil ?_ (hw.reservedRules_length_lt hnumber hfind) ?_
  · exact many_length_append hdigits fun c hc ↦ isDigit_eq_false (hw.ends c hc)
  · exact List.forall_mem_cons.2 ⟨hw.nameRule_length.le, hw.layoutRules_length⟩

theorem yylex_name (hdigits : ¬ ∀ c ∈ w, c.isDigit) :
    yylex (w ++ text) = nameOf w :: yylex text := by
  have hrules : rules = (symbolRules ++ definitionRules ++ (reserved.map reservedRule ++
      [floatRule]) ++ [intRule]) ++ nameRule :: layoutRules := by simp [rules, wordRules]
  refine scan_longest hrules hw.ne_nil hw.nameRule_length ?_ hw.layoutRules_length
  exact List.forall_mem_append.2 ⟨hw.reservedRules_length_lt hnumber hfind,
    List.forall_mem_singleton.2 (intRule_length_lt hdigits)⟩

end unreserved

/-- **A word**: the first rule that takes all of it is that of a reserved word, or the one of a
number if it has digits only, or the one of a name. -/
theorem yylex_word (hw : IsWord w text) (hnumber : (∀ c ∈ w, c.isDigit) → ¬ BeginsFraction text) :
    yylex (w ++ text) = wordTerminal w :: yylex text := by
  rw [wordTerminal]
  split
  · rename_i k hfind
    exact yylex_reserved hw hnumber hfind
  · rename_i hfind
    split_ifs with hdigits
    · exact yylex_int hw hnumber hfind (List.all_eq_true.1 hdigits)
    · exact yylex_name hw hnumber hfind fun h ↦ hdigits (List.all_eq_true.2 h)

theorem floatLength_append {whole fraction : List Char} (hwhole : whole ≠ [])
    (hwhole' : ∀ c ∈ whole, c.isDigit) (hfraction : fraction ≠ [])
    (hfraction' : ∀ c ∈ fraction, c.isDigit) (hends : ∀ c ∈ text.head?, c.isDigit = false) :
    floatLength (whole ++ '.' :: (fraction ++ text)) = (whole ++ '.' :: fraction).length := by
  have hdrop : (whole ++ '.' :: (fraction ++ text)).dropWhile Char.isDigit =
      '.' :: (fraction ++ text) := List.dropWhile_append_of_pos hwhole'
  have htake : (whole ++ '.' :: (fraction ++ text)).takeWhile Char.isDigit = whole := by
    refine takeWhile_append_eq hwhole' ?_
    rintro c ⟨⟩
    rfl
  rw [floatLength, hdrop, htake]
  refine (if_neg ?_).trans ?_
  · rw [takeWhile_append_eq hfraction' hends]
    exact not_or.2 ⟨hwhole, hfraction⟩
  · rw [takeWhile_append_eq hfraction' hends, List.length_append, List.length_cons]
    omega

/-- **A number with a point** is longer than what is before the point. -/
theorem yylex_float {whole fraction : List Char} (hwhole : whole ≠ [])
    (hwhole' : ∀ c ∈ whole, c.isDigit) (hfraction : fraction ≠ [])
    (hfraction' : ∀ c ∈ fraction, c.isDigit) (hends : ∀ c ∈ text.head?, c.isDigit = false) :
    yylex (whole ++ '.' :: (fraction ++ text)) = .float :: yylex text := by
  have hw : IsWord whole ('.' :: (fraction ++ text)) := by
    refine ⟨hwhole, fun c hc ↦ ?_, ?_⟩
    · rw [Char.isAlphanum, hwhole' c hc, Bool.or_true]
    · rintro c ⟨⟩
      rfl
  have hlt : whole.length < (whole ++ '.' :: fraction).length := by
    rw [List.length_append, List.length_cons]
    omega
  have hpos := (Nat.zero_le _).trans_lt hlt
  have happend : whole ++ '.' :: (fraction ++ text) = (whole ++ '.' :: fraction) ++ text := by
    rw [List.append_assoc, List.cons_append]
  have hrules : rules = (symbolRules ++ definitionRules ++ reserved.map reservedRule) ++
      floatRule :: (intRule :: nameRule :: layoutRules) := by simp [rules, wordRules]
  have hfloat := floatLength_append hwhole hwhole' hfraction hfraction' hends
  rw [happend] at hfloat ⊢
  refine scan_longest hrules (List.length_pos_iff.1 hpos) hfloat ?_ ?_
  all_goals rw [← happend]
  · refine List.forall_mem_append.2 ⟨fun r hr ↦ (hw.earlierRules_length_lt r hr).trans hlt, ?_⟩
    exact List.forall_mem_map.2 fun k hk ↦ (hw.reservedRule_length_le hk).trans_lt hlt
  · simp only [List.forall_mem_cons]
    exact ⟨hw.intRule_length_le.trans hlt.le, hw.nameRule_length.trans_le hlt.le,
      fun r hr ↦ (hw.layoutRules_length r hr).trans hlt.le⟩

/-! ### Whole texts -/

theorem yylex_eq_of_written (h : Written text ts) : yylex text = ts := by
  induction h with
  | nil => rfl
  | ignored hc _ ih => rw [yylex_ignored hc, ih]
  | lbrack hc _ ih => rw [yylex_lbrack hc, ih]
  | rbrack hc _ ih => rw [yylex_rbrack hc, ih]
  | equals _ ih => rw [yylex_equals, ih]
  | definition hd _ ih => rw [yylex_definition hd, ih]
  | float hwhole hwhole' hfraction hfraction' hends _ ih =>
    rw [yylex_float hwhole hwhole' hfraction hfraction' hends, ih]
  | word hw hnumber _ ih => rw [yylex_word hw hnumber, ih]

theorem BeginsFraction.exists_eq (h : BeginsFraction text) :
    ∃ d rest, text = '.' :: d :: rest ∧ d.isDigit := by
  unfold BeginsFraction at h
  split at h
  · exact ⟨_, _, rfl, h⟩
  · exact h.elim

section exists_written

variable (hrest : ∀ w rest, c :: text = w ++ rest → w ≠ [] → ∃ ts, Written rest ts)

include hrest

/-- A letter or a digit begins a word, or a number with a point. -/
theorem exists_written_of_alphanum (hc : c.isAlphanum) : ∃ ts, Written (c :: text) ts := by
  obtain ⟨w, rest, happend, hne, hw, hends⟩ := exists_eq_append hc text
  by_cases hnumber : (∀ c ∈ w, c.isDigit) ∧ BeginsFraction rest
  · obtain ⟨hdigits, hfraction⟩ := hnumber
    obtain ⟨d, rest', rfl, hd⟩ := hfraction.exists_eq
    obtain ⟨fraction, rest'', hsplit, hne', hfraction', hends'⟩ := exists_eq_append hd rest'
    rw [hsplit] at happend
    obtain ⟨ts, hts⟩ := hrest (w ++ '.' :: fraction) rest''
      (by rw [happend, List.append_assoc, List.cons_append]) (by simp)
    rw [happend]
    exact ⟨_, .float hne hdigits hne' hfraction' hends' hts⟩
  · obtain ⟨ts, hts⟩ := hrest w rest happend hne
    rw [happend]
    exact ⟨_, .word ⟨hne, hw, hends⟩ (fun hdigits h ↦ hnumber ⟨hdigits, h⟩) hts⟩

/-- Another character is a symbol, begins a definition or says nothing. -/
theorem exists_written_of_not_alphanum (hc : c.isAlphanum = false) :
    ∃ ts, Written (c :: text) ts := by
  obtain ⟨ts, hts⟩ := hrest [c] text rfl (List.cons_ne_nil c [])
  by_cases hlbrack : isLBrack c
  · exact ⟨_, .lbrack hlbrack hts⟩
  by_cases hrbrack : isRBrack c
  · exact ⟨_, .rbrack hrbrack hts⟩
  by_cases hequals : c = '='
  · rw [hequals]
    exact ⟨_, .equals hts⟩
  by_cases hdefinition : ∃ d ∈ definitions, d.1 <+: c :: text
  · obtain ⟨d, hd, rest, hpre⟩ := hdefinition
    have hne : d.1 ≠ [] := (show ∀ d ∈ definitions, d.1 ≠ [] by decide) d hd
    obtain ⟨ts', hts'⟩ := hrest d.1 rest hpre.symm hne
    rw [← hpre]
    exact ⟨_, .definition hd hts'⟩
  · rw [Bool.not_eq_true] at hlbrack hrbrack
    exact ⟨_, .ignored ⟨hc, hlbrack, hrbrack, hequals,
      fun d hd hpre ↦ hdefinition ⟨d, hd, hpre⟩⟩ hts⟩

end exists_written

/-- **Every text** says something. -/
theorem exists_written (text : List Char) : ∃ ts, Written text ts := by
  induction hlen : text.length using Nat.strong_induction_on generalizing text with
  | _ n ih =>
    have hrest : ∀ w rest : List Char, text = w ++ rest → w ≠ [] → ∃ ts, Written rest ts := by
      intro w rest happend hw
      have hpos := List.length_pos_iff.2 hw
      refine ih rest.length ?_ rest rfl
      rw [← hlen, happend, List.length_append]
      omega
    rcases text with - | ⟨c, text⟩
    · exact ⟨[], .nil⟩
    · by_cases hc : c.isAlphanum
      · exact exists_written_of_alphanum hrest hc
      · exact exists_written_of_not_alphanum hrest (Bool.not_eq_true _ ▸ hc)

/-- **What the scanner makes of a text** is what is written there. -/
theorem yylex_eq_iff (text : List Char) (ts : List Terminal) :
    yylex text = ts ↔ Written text ts := by
  refine ⟨?_, yylex_eq_of_written⟩
  rintro rfl
  obtain ⟨ts, hts⟩ := exists_written text
  rwa [yylex_eq_of_written hts]

example : yylex "my_door".toList = [nameOf "my".toList, nameOf "door".toList] := by decide

/-! ### Writing tokens -/

/-- A token, as it is written. -/
def Token.chars : Token → List Char
  | domainDef => "_domain".toList
  | actionDef => "_action".toList
  | ownerDef => "_owner".toList
  | preconditionsDef => "_preconditions".toList
  | eventDef => "_event".toList
  | effectDeleteDef => "_effect_delete".toList
  | effectAddDef => "_effect_add".toList
  | lbrack => ['(']
  | rbrack => [')']
  | equals => ['=']
  | name n => n.toList

/-- Tokens, each with a blank behind it. -/
def render (ts : List Token) : List Char := ts.flatMap fun t ↦ t.chars ++ [' ']

/-- What the scanner takes for a name. -/
structure IsName (n : String) : Prop where
  ne_nil : n.toList ≠ []
  alphanum : ∀ c ∈ n.toList, c.isAlphanum
  digits : ¬ ∀ c ∈ n.toList, c.isDigit
  reserved : ∀ k ∈ reserved, k.1 ≠ n.toList

theorem wordTerminal_eq_name_iff {n : String} : wordTerminal w = .token (.name n) ↔
    n.toList = w ∧ (¬ ∀ c ∈ w, c.isDigit) ∧ ∀ k ∈ reserved, k.1 ≠ w := by
  rw [wordTerminal]
  split
  · rename_i k hfind
    have hk := List.mem_of_find?_eq_some hfind
    have hterminal : ∀ k ∈ reserved, k.2 ≠ .token (.name n) := by simp [reserved]
    refine iff_of_false (hterminal k hk) fun h ↦ h.2.2 k hk ?_
    exact beq_iff_eq.1 (List.find?_eq_some_iff_append.1 hfind).1
  · rename_i hfind
    have hreserved : ∀ k ∈ reserved, k.1 ≠ w :=
      fun k hk h ↦ List.find?_eq_none.1 hfind k hk (beq_iff_eq.2 h)
    split_ifs with hdigits
    · exact iff_of_false nofun fun h ↦ h.2.1 (List.all_eq_true.1 hdigits)
    · rw [nameOf, Terminal.token.injEq, Token.name.injEq]
      constructor
      · rintro rfl
        exact ⟨String.toList_ofList, fun h ↦ hdigits (List.all_eq_true.2 h), hreserved⟩
      · rintro ⟨rfl, -, -⟩
        exact String.ofList_toList

/-- The names that the scanner returns. -/
theorem Written.isName {n : String} (h : Written text ts) (hn : .token (.name n) ∈ ts) :
    IsName n := by
  induction h with
  | nil => exact absurd hn List.not_mem_nil
  | ignored _ _ ih => exact ih hn
  | lbrack _ _ ih => exact ih ((List.mem_cons.1 hn).resolve_left nofun)
  | rbrack _ _ ih => exact ih ((List.mem_cons.1 hn).resolve_left nofun)
  | equals _ ih => exact ih ((List.mem_cons.1 hn).resolve_left nofun)
  | @definition d _ _ hd _ ih =>
    have hname : ∀ d ∈ definitions, Token.name n ≠ d.2 := by simp [definitions]
    exact ih ((List.mem_cons.1 hn).resolve_left fun h ↦ hname d hd (Terminal.token.inj h))
  | float _ _ _ _ _ _ ih => exact ih ((List.mem_cons.1 hn).resolve_left nofun)
  | word hw _ _ ih =>
    rcases List.mem_cons.1 hn with h | h
    · obtain ⟨rfl, hdigits, hreserved⟩ := wordTerminal_eq_name_iff.1 h.symm
      exact ⟨hw.ne_nil, hw.alphanum, hdigits, hreserved⟩
    · exact ih h

theorem yylex_blank : yylex (' ' :: text) = yylex text := by
  refine yylex_ignored ⟨rfl, rfl, rfl, by decide, ?_⟩
  rintro d hd ⟨t, ht⟩
  obtain ⟨w, hw⟩ := List.head?_eq_some_iff.1 (head?_of_mem_definitions d hd)
  rw [hw] at ht
  exact absurd (List.cons.inj ht).1 (by decide)

theorem yylex_token_chars {t : Token} (ht : ∀ n, t = .name n → IsName n) (text : List Char) :
    yylex (t.chars ++ ' ' :: text) = .token t :: yylex text := by
  rw [← @yylex_blank text]
  have hdefinition : ∀ {t : Token}, (t.chars, t) ∈ definitions →
      yylex (t.chars ++ ' ' :: text) = .token t :: yylex (' ' :: text) := yylex_definition
  cases t with
  | lbrack => exact yylex_lbrack (show isLBrack '(' from rfl)
  | rbrack => exact yylex_rbrack (show isRBrack ')' from rfl)
  | equals =>
    have hchars : Token.equals.chars ++ ' ' :: text = '=' :: ' ' :: text := rfl
    rw [hchars]
    exact yylex_equals
  | name n =>
    obtain ⟨hne, halphanum, hdigits, hreserved⟩ := ht n rfl
    have hw : IsWord n.toList (' ' :: text) := by
      refine ⟨hne, halphanum, ?_⟩
      rintro c ⟨⟩
      rfl
    have hchars : (Token.name n).chars = n.toList := rfl
    rw [hchars, yylex_word hw fun h ↦ absurd h hdigits,
      wordTerminal_eq_name_iff.2 ⟨rfl, hdigits, hreserved⟩]
  | _ => exact hdefinition (by decide)

theorem yylex_render {tokens : List Token} (h : ∀ n, .name n ∈ tokens → IsName n) :
    yylex (render tokens) = tokens.map .token := by
  induction tokens with
  | nil => rfl
  | cons t tokens ih =>
    have ht : ∀ n, t = .name n → IsName n := fun n hn ↦ h n (hn ▸ List.mem_cons_self)
    have hrender : render (t :: tokens) = t.chars ++ ' ' :: render tokens := by
      rw [render, List.flatMap_cons, List.append_assoc, List.singleton_append, render]
    rw [hrender, yylex_token_chars ht, ih fun n hn ↦ h n (List.mem_cons_of_mem _ hn),
      List.map_cons]

/-- **Writing tokens and reading them** gives the tokens if their names are names. -/
theorem yylex_render_iff (tokens : List Token) :
    yylex (render tokens) = tokens.map .token ↔ ∀ n, .name n ∈ tokens → IsName n := by
  refine ⟨fun h n hn ↦ ?_, yylex_render⟩
  obtain ⟨ts, hts⟩ := exists_written (render tokens)
  rw [yylex_eq_of_written hts] at h
  exact hts.isName (h ▸ List.mem_map_of_mem hn)

/-- **Domains** that are written out create the same events when they are loaded again, however the
tokens are derived. -/
theorem created_eq_of_render {m m' : Maepl} (hnames : ∀ n, .name n ∈ m.tokens → IsName n)
    (h : yylex (render m.tokens) = m'.tokens.map .token) : m'.run.created = m.run.created := by
  rw [yylex_render hnames] at h
  exact created_eq_of_tokens_eq (List.map_injective_iff.2 (fun _ _ ↦ Terminal.token.inj) h).symm

end DomainLoader
