import R2DTU.Library.Machine
import R2DTU.Operator.LineWrapping
import Mathlib.Data.List.TakeWhile

/-!
# The command line of the terminal

The terminal keeps its command line as bytes. Keys append to it, backspace takes the last letter
off, return publishes it as a command with a parameter and clears it, and a message from elsewhere
may replace it. The Danish letters take two bytes each, the first of which is `0xC3`.

Because of where a brace closes in `handle_key`, letters, digits, the point and `å` act when a key
goes down, and `ø`, `æ`, space, backspace, return and F5 act when it comes up.

`Editor` is the same thing over letters: a list to which letters are appended and from which they
are erased. A letter is one of ASCII, or one of U+00C0 to U+00FF: their codes are `0xC3` and one
more byte. The bytes follow the editor through every run (`handleEvents_eq`), although backspace
looks at bytes and return looks for a byte. What this rests on is that no letter ends with `0xC3` or
contains a space. Letters of other codes can only come with a message from elsewhere; backspace
would cut them.

The line is `cmd_buffer_`. How `render` wraps it to the width of the view is left out.
-/

namespace Ocs

/-! ### The view -/

/-- `SDL_Keysym`: the key, and whether `KMOD_SHIFT` is among the modifiers. -/
structure Keysym where
  /-- The key, by its `SDL_Keycode`. -/
  sym : ℕ
  /-- Whether shift is held. -/
  shift : Bool
  deriving DecidableEq

/-- The event types that reach `handle_key`: `SDL_KEYDOWN` and `SDL_KEYUP`. -/
inductive KeyType
  | down
  | up
  deriving DecidableEq

/-- `TerminalCmdMsg`, with its texts. -/
structure TerminalCmdMsg where
  /-- The first word of the line. -/
  cmdType : List UInt8
  /-- What is behind it. -/
  param : List UInt8
  deriving DecidableEq

/-- The key of `ø`. -/
def utf16O : ℕ := 248

/-- The key of `å`. -/
def utf16A : ℕ := 229

/-- The key of `æ`. -/
def utf16AE : ℕ := 230

/-- The key that erases. -/
def sdlkBackspace : ℕ := 8

/-- The key between the command and its parameter. -/
def sdlkSpace : ℕ := 32

/-- The key that publishes the line. -/
def sdlkReturn : ℕ := 13

/-- The key that publishes a fixed command. -/
def sdlkF5 : ℕ := 0x4000003E

/-- The first byte of a letter of two bytes. -/
def lead : UInt8 := 0xC3

/-- `cmd_buffer_` without its last letter. -/
def backspace (cmdBuffer : List UInt8) : List UInt8 :=
  if cmdBuffer.length ≥ 2 ∧ cmdBuffer[cmdBuffer.length - 2]? = some lead then
    cmdBuffer.dropLast.dropLast
  else cmdBuffer.dropLast

/-- The command and the parameter: what is before the first space, and what is behind it. -/
def splitCommand (cmdBuffer : List UInt8) : TerminalCmdMsg :=
  match cmdBuffer.idxOf? space with
  | some split => ⟨substr cmdBuffer 0 split, cmdBuffer.drop (split + 1)⟩
  | none => ⟨cmdBuffer, []⟩

/-- The command of F5, `"sr"`. -/
def sr : List UInt8 := [115, 114]

/-- `TerminalView::handle_key`: `cmd_buffer_` and what is published. -/
def handleKey (cmdBuffer : List UInt8) (key : Keysym) (type : KeyType) :
    List UInt8 × Option TerminalCmdMsg :=
  if type = .down then
    if (97 ≤ key.sym ∧ key.sym ≤ 122) ∨ (48 ≤ key.sym ∧ key.sym ≤ 57) then
      (cmdBuffer ++ [if key.shift then UInt8.ofNat key.sym - (97 - 65) else UInt8.ofNat key.sym],
        none)
    else if key.sym = 46 then (cmdBuffer ++ [if key.shift then 58 else 46], none)
    else if key.sym = utf16A then
      (cmdBuffer ++ (if key.shift then [0xC3, 0x85] else [0xC3, 0xA5]), none)
    else (cmdBuffer, none)
  else if key.sym = utf16O then
    (cmdBuffer ++ (if key.shift then [0xC3, 0x98] else [0xC3, 0xB8]), none)
  else if key.sym = utf16AE then
    (cmdBuffer ++ (if key.shift then [0xC3, 0x86] else [0xC3, 0xA6]), none)
  else if key.sym = sdlkBackspace ∧ cmdBuffer ≠ [] then (backspace cmdBuffer, none)
  else if key.sym = sdlkSpace then (cmdBuffer ++ [space], none)
  else if key.sym = sdlkReturn then ([], some (splitCommand cmdBuffer))
  else if key.sym = sdlkF5 then (cmdBuffer, some ⟨sr, sr⟩)
  else (cmdBuffer, none)

/-- What happens to the view: a key, or a message of `terminal_override`. -/
inductive Event
  | key (key : Keysym) (type : KeyType)
  | override (text : List UInt8)

/-- What an event leaves: the message published, and `cmd_buffer_`, which is drawn next. -/
structure Shown where
  /-- The message that the event has sent. -/
  published : Option TerminalCmdMsg
  /-- The line as it is afterwards. -/
  line : List UInt8
  deriving DecidableEq

/-- `handle_key` and `handle_terminal_override`. -/
def handleEvent (cmdBuffer : List UInt8) : Event → Option (Shown × List UInt8)
  | .key key type =>
    let (cmdBuffer, published) := handleKey cmdBuffer key type
    some (⟨published, cmdBuffer⟩, cmdBuffer)
  | .override text => some (⟨none, text⟩, text)

/-! ### Letters -/

/-- A letter of the line: one of ASCII, or one of U+00C0 to U+00FF, which is `0xC3` with a byte
behind it. -/
inductive Letter
  | byte (b : UInt8) (h : b < 0x80)
  | pair (b : UInt8) (h : 0x80 ≤ b ∧ b < 0xC0)
  deriving DecidableEq

namespace Letter

def encode : Letter → List UInt8
  | byte b _ => [b]
  | pair b _ => [lead, b]

/-- A text as letters, when it is nothing but these letters. -/
def decode : List UInt8 → Option (List Letter)
  | [] => some []
  | b :: text =>
    if hb : b < 0x80 then (decode text).map (byte b hb :: ·)
    else if b = lead then
      match text with
      | [] => none
      | b' :: text =>
        if h : 0x80 ≤ b' ∧ b' < 0xC0 then (decode text).map (pair b' h :: ·) else none
    else none

def spaceLetter : Letter := byte space (by decide)

end Letter

/-- The bytes of a line. -/
def encode (line : List Letter) : List UInt8 := line.flatMap Letter.encode

@[simp] theorem encode_nil : encode [] = [] := rfl

@[simp] theorem encode_cons (c : Letter) (line : List Letter) :
    encode (c :: line) = c.encode ++ encode line := List.flatMap_cons

@[simp] theorem encode_append (line line' : List Letter) :
    encode (line ++ line') = encode line ++ encode line' := List.flatMap_append

theorem encode_singleton (c : Letter) : encode [c] = c.encode := List.flatMap_singleton ..

/-- **Decoding is exact.** -/
theorem encode_of_decode {text : List UInt8} {line : List Letter}
    (h : Letter.decode text = some line) : encode line = text := by
  fun_induction Letter.decode text generalizing line with
  | case1 => rw [← Option.some.inj h, encode_nil]
  | case2 b text hb ih =>
    obtain ⟨rest, hrest, rfl⟩ := Option.map_eq_some_iff.1 h
    rw [encode_cons, ih hrest]
    rfl
  | case3 => exact absurd h.symm (Option.some_ne_none _)
  | case4 b' text hb _ ih =>
    obtain ⟨rest, hrest, rfl⟩ := Option.map_eq_some_iff.1 h
    rw [encode_cons, ih hrest]
    rfl
  | case5 => exact absurd h.symm (Option.some_ne_none _)
  | case6 => exact absurd h.symm (Option.some_ne_none _)

theorem ne_lead_of_lt {b : UInt8} (h : b < 0x80) : b ≠ lead := by
  rintro rfl
  exact absurd h (by decide)

/-- No letter ends with the first byte of a pair. -/
theorem getLast?_encode_ne (line : List Letter) : (encode line).getLast? ≠ some lead := by
  rcases List.eq_nil_or_concat line with rfl | ⟨line, c, rfl⟩
  · exact nofun
  · rw [List.concat_eq_append, encode_append, encode_singleton]
    rcases c with ⟨b, hb⟩ | ⟨b, hb⟩
    · rw [Letter.encode, List.getLast?_append, List.getLast?_singleton]
      exact fun h ↦ ne_lead_of_lt hb (Option.some.inj h)
    · rw [Letter.encode, List.getLast?_append]
      rintro h
      obtain rfl : b = lead := Option.some.inj h
      exact absurd hb (by decide)

/-- **Backspace takes off a letter**, although it looks at bytes. -/
theorem backspace_encode (line : List Letter) (c : Letter) :
    backspace (encode (line ++ [c])) = encode line := by
  rw [encode_append, encode_singleton]
  rcases c with ⟨b, hb⟩ | ⟨b, hb⟩
  · have hlen : (encode line ++ [b]).length - 2 = (encode line).length - 1 := by simp
    rw [backspace, Letter.encode, if_neg, List.dropLast_concat]
    rintro ⟨hge, hlead⟩
    rw [List.length_append, List.length_singleton] at hge
    rw [hlen, List.getElem?_append_left (by omega), ← List.getLast?_eq_getElem?] at hlead
    exact getLast?_encode_ne line hlead
  · have hlen : (encode line ++ [lead, b]).length - 2 = (encode line).length := by simp
    rw [backspace, Letter.encode, if_pos]
    · rw [List.append_cons, List.dropLast_concat, List.dropLast_concat]
    · refine ⟨by simp, ?_⟩
      rw [hlen, List.getElem?_append_right le_rfl, Nat.sub_self, List.getElem?_cons_zero]

/-- The only letter with a space in it is the space. -/
theorem Letter.space_not_mem {c : Letter} (h : c ≠ spaceLetter) : space ∉ c.encode := by
  rcases c with ⟨b, hb⟩ | ⟨b, hb⟩
  · intro hmem
    obtain rfl := List.mem_singleton.1 hmem
    exact h rfl
  · intro hmem
    rcases List.mem_cons.1 hmem with hlead | hmem
    · exact absurd hlead (by decide)
    · obtain rfl := List.mem_singleton.1 hmem
      exact absurd hb (by decide)

theorem space_not_mem_encode {line : List Letter} (h : Letter.spaceLetter ∉ line) :
    space ∉ encode line := by
  intro hmem
  obtain ⟨c, hc, hspace⟩ := List.mem_flatMap.1 hmem
  exact Letter.space_not_mem (fun heq ↦ h (heq ▸ hc)) hspace

/-- `find` returns the position behind what has no space in it. -/
theorem idxOf?_append_space {before : List UInt8} (h : space ∉ before) (after : List UInt8) :
    (before ++ space :: after).idxOf? space = some before.length := by
  refine List.idxOf?_eq_some_iff.2 ⟨by simp, by simp, fun j hj heq ↦ h ?_⟩
  rw [List.getElem_append_left hj] at heq
  exact heq ▸ List.getElem_mem hj

/-- **Return splits at a letter**, although it looks for a byte. -/
theorem splitCommand_encode (line : List Letter) : splitCommand (encode line) =
    ⟨encode (line.takeWhile (· ≠ Letter.spaceLetter)),
      encode (line.dropWhile (· ≠ Letter.spaceLetter)).tail⟩ := by
  by_cases hmem : Letter.spaceLetter ∈ line
  · obtain ⟨before, after, rfl, hbefore⟩ := List.eq_append_cons_of_mem hmem
    have hne : ∀ c ∈ before, decide (c ≠ Letter.spaceLetter) = true := fun c hc ↦
      decide_eq_true fun heq ↦ hbefore (heq ▸ hc)
    have hbytes : encode (before ++ Letter.spaceLetter :: after) =
        encode before ++ space :: encode after := by
      rw [encode_append, encode_cons]
      rfl
    rw [hbytes, splitCommand, idxOf?_append_space (space_not_mem_encode hbefore),
      List.takeWhile_append_of_pos hne, List.dropWhile_append_of_pos hne,
      List.takeWhile_cons_of_neg (by simp), List.dropWhile_cons_of_neg (by simp), List.append_nil,
      List.tail_cons]
    simp only [substr, List.drop_zero, List.take_left', List.drop_append, Nat.add_sub_cancel_left]
    simp
  · have hne : ∀ c ∈ line, decide (c ≠ Letter.spaceLetter) = true := fun c hc ↦
      decide_eq_true fun heq ↦ hmem (heq ▸ hc)
    rw [splitCommand, List.idxOf?_eq_none_iff.2 (space_not_mem_encode hmem),
      List.takeWhile_eq_self_iff.2 hne, List.dropWhile_eq_nil_iff.2 hne]
    rfl

/-! ### The editor -/

/-- What can be done to a line of letters. -/
inductive Input
  | type (c : Letter)
  | erase
  | enter
  | replace (line : List Letter)
  | announce (msg : TerminalCmdMsg)
  | nothing

/-- The editor: letters are appended and erased at the end; `enter` gives away the letters before
the first space and those behind it, and starts anew. -/
def Editor.step (line : List Letter) : Input → Option (Shown × List Letter)
  | .type c => some (⟨none, encode (line ++ [c])⟩, line ++ [c])
  | .erase => some (⟨none, encode line.dropLast⟩, line.dropLast)
  | .enter =>
    some (⟨some ⟨encode (line.takeWhile (· ≠ Letter.spaceLetter)),
      encode (line.dropWhile (· ≠ Letter.spaceLetter)).tail⟩, []⟩, [])
  | .replace line => some (⟨none, encode line⟩, line)
  | .announce msg => some (⟨some msg, encode line⟩, line)
  | .nothing => some (⟨none, encode line⟩, line)

/-- The letter that a byte is. -/
def Input.typeByte (b : UInt8) : Input := if h : b < 0x80 then .type (.byte b h) else .nothing

/-- What a key does: those in the first list when it goes down, those in the second when it comes
up. -/
def Keysym.input (key : Keysym) : KeyType → Input
  | .down =>
    if (97 ≤ key.sym ∧ key.sym ≤ 122) ∨ (48 ≤ key.sym ∧ key.sym ≤ 57) then
      .typeByte (if key.shift then UInt8.ofNat key.sym - 32 else UInt8.ofNat key.sym)
    else if key.sym = 46 then .typeByte (if key.shift then 58 else 46)
    else if key.sym = utf16A then
      .type (if key.shift then .pair 0x85 (by decide) else .pair 0xA5 (by decide))
    else .nothing
  | .up =>
    if key.sym = utf16O then
      .type (if key.shift then .pair 0x98 (by decide) else .pair 0xB8 (by decide))
    else if key.sym = utf16AE then
      .type (if key.shift then .pair 0x86 (by decide) else .pair 0xA6 (by decide))
    else if key.sym = sdlkBackspace then .erase
    else if key.sym = sdlkSpace then .type Letter.spaceLetter
    else if key.sym = sdlkReturn then .enter
    else if key.sym = sdlkF5 then .announce ⟨sr, sr⟩
    else .nothing

/-- What an event does to the line. -/
def Event.input : Event → Input
  | .key k t => k.input t
  | .override text => .replace ((Letter.decode text).getD [])

/-- A message of `terminal_override` has a text of whole letters. -/
def Event.Encoded : Event → Prop
  | .key _ _ => True
  | .override text => (Letter.decode text).isSome

instance : DecidablePred Event.Encoded
  | .key _ _ => isTrue trivial
  | .override text => inferInstanceAs (Decidable ((Letter.decode text).isSome = true))

/-- The byte of a letter or a digit, with or without shift, is one of ASCII. -/
theorem letterByte_lt {sym : ℕ} (h : (97 ≤ sym ∧ sym ≤ 122) ∨ (48 ≤ sym ∧ sym ≤ 57))
    (shift : Bool) : (if shift then UInt8.ofNat sym - 32 else UInt8.ofNat sym) < 0x80 := by
  rw [UInt8.lt_iff_toNat_lt]
  cases shift <;>
    simp only [Bool.false_eq_true, if_true, if_false, UInt8.toNat_sub, UInt8.toNat_ofNat',
      UInt8.reduceToNat] <;>
    omega

theorem Input.typeByte_eq {b : UInt8} (h : b < 0x80) : typeByte b = .type (.byte b h) :=
  dif_pos h

/-- The bytes of the line follow a step of the editor. -/
def Follows (line : List Letter) (e : Event) : Prop :=
  ∃ shown line', handleEvent (encode line) e = some (shown, encode line') ∧
    Editor.step line e.input = some (shown, line')

/-- A letter is typed. -/
theorem follows_of_type {line : List Letter} {e : Event} {c : Letter} (hinput : e.input = .type c)
    (h : handleEvent (encode line) e =
      some (⟨none, encode line ++ c.encode⟩, encode line ++ c.encode)) : Follows line e := by
  refine ⟨⟨none, encode (line ++ [c])⟩, line ++ [c], ?_, ?_⟩
  · rw [h, encode_append, encode_singleton]
  · rw [hinput]
    rfl

/-- Nothing happens. -/
theorem follows_of_nothing {line : List Letter} {e : Event} (hinput : e.input = .nothing)
    (h : handleEvent (encode line) e = some (⟨none, encode line⟩, encode line)) :
    Follows line e := by
  refine ⟨_, line, h, ?_⟩
  rw [hinput]
  rfl

/-- **A key goes down.** -/
theorem follows_down (line : List Letter) (k : Keysym) : Follows line (.key k .down) := by
  by_cases hletter : (97 ≤ k.sym ∧ k.sym ≤ 122) ∨ (48 ≤ k.sym ∧ k.sym ≤ 57)
  · refine follows_of_type (c := .byte _ (letterByte_lt hletter k.shift)) ?_ ?_
    · rw [Event.input, Keysym.input, if_pos hletter, Input.typeByte_eq]
    · rw [handleEvent, handleKey, if_pos rfl, if_pos hletter]
      rfl
  by_cases hpoint : k.sym = 46
  · have hlt : (if k.shift then 58 else 46 : UInt8) < 0x80 := by cases k.shift <;> decide
    refine follows_of_type (c := .byte _ hlt) ?_ ?_
    · rw [Event.input, Keysym.input, if_neg hletter, if_pos hpoint, Input.typeByte_eq hlt]
    · rw [handleEvent, handleKey, if_pos rfl, if_neg hletter, if_pos hpoint]
      rfl
  by_cases ha : k.sym = utf16A
  · refine follows_of_type
      (c := if k.shift then .pair 0x85 (by decide) else .pair 0xA5 (by decide)) ?_ ?_
    · rw [Event.input, Keysym.input, if_neg hletter, if_neg hpoint, if_pos ha]
    · rw [handleEvent, handleKey, if_pos rfl, if_neg hletter, if_neg hpoint, if_pos ha]
      cases k.shift <;> rfl
  · refine follows_of_nothing ?_ ?_
    · rw [Event.input, Keysym.input, if_neg hletter, if_neg hpoint, if_neg ha]
    · rw [handleEvent, handleKey, if_pos rfl, if_neg hletter, if_neg hpoint, if_neg ha]

/-- Backspace. An empty line goes through to the end, and stays empty. -/
theorem follows_backspace (line : List Letter) {k : Keysym} (hback : k.sym = sdlkBackspace) :
    Follows line (.key k .up) := by
  have hup : KeyType.up ≠ KeyType.down := nofun
  have ho : k.sym ≠ utf16O := hback ▸ by decide
  have hae : k.sym ≠ utf16AE := hback ▸ by decide
  have hinput : k.input .up = .erase := by
    rw [Keysym.input, if_neg ho, if_neg hae, if_pos hback]
  refine ⟨⟨none, encode line.dropLast⟩, line.dropLast, ?_, by rw [Event.input, hinput]; rfl⟩
  rcases List.eq_nil_or_concat line with rfl | ⟨line, c, rfl⟩
  · have hspace : k.sym ≠ sdlkSpace := hback ▸ by decide
    have hreturn : k.sym ≠ sdlkReturn := hback ▸ by decide
    have hf5 : k.sym ≠ sdlkF5 := hback ▸ by decide
    rw [handleEvent, handleKey, if_neg hup, if_neg ho, if_neg hae, if_neg (fun h ↦ h.2 rfl),
      if_neg hspace, if_neg hreturn, if_neg hf5]
    rfl
  · rw [List.concat_eq_append, List.dropLast_concat]
    have hne : encode (line ++ [c]) ≠ [] := by
      rw [encode_append, encode_singleton]
      exact List.append_ne_nil_of_right_ne_nil _ (by cases c <;> exact List.cons_ne_nil _ _)
    rw [handleEvent, handleKey, if_neg hup, if_neg ho, if_neg hae, if_pos ⟨hback, hne⟩,
      backspace_encode]

/-- **A key comes up.** -/
theorem follows_up (line : List Letter) (k : Keysym) : Follows line (.key k .up) := by
  have hup : KeyType.up ≠ KeyType.down := nofun
  by_cases ho : k.sym = utf16O
  · refine follows_of_type
      (c := if k.shift then .pair 0x98 (by decide) else .pair 0xB8 (by decide)) ?_ ?_
    · rw [Event.input, Keysym.input, if_pos ho]
    · rw [handleEvent, handleKey, if_neg hup, if_pos ho]
      cases k.shift <;> rfl
  by_cases hae : k.sym = utf16AE
  · refine follows_of_type
      (c := if k.shift then .pair 0x86 (by decide) else .pair 0xA6 (by decide)) ?_ ?_
    · rw [Event.input, Keysym.input, if_neg ho, if_pos hae]
    · rw [handleEvent, handleKey, if_neg hup, if_neg ho, if_pos hae]
      cases k.shift <;> rfl
  by_cases hback : k.sym = sdlkBackspace
  · exact follows_backspace line hback
  have hnback : ¬ (k.sym = sdlkBackspace ∧ encode line ≠ []) := fun h ↦ hback h.1
  by_cases hspace : k.sym = sdlkSpace
  · refine follows_of_type (c := Letter.spaceLetter) ?_ ?_
    · rw [Event.input, Keysym.input, if_neg ho, if_neg hae, if_neg hback, if_pos hspace]
    · rw [handleEvent, handleKey, if_neg hup, if_neg ho, if_neg hae, if_neg hnback, if_pos hspace]
      rfl
  by_cases hreturn : k.sym = sdlkReturn
  · have hinput : k.input .up = .enter := by
      rw [Keysym.input, if_neg ho, if_neg hae, if_neg hback, if_neg hspace, if_pos hreturn]
    refine ⟨_, [], ?_, by rw [Event.input, hinput]; rfl⟩
    rw [handleEvent, handleKey, if_neg hup, if_neg ho, if_neg hae, if_neg hnback, if_neg hspace,
      if_pos hreturn, splitCommand_encode]
    rfl
  by_cases hf5 : k.sym = sdlkF5
  · have hinput : k.input .up = .announce ⟨sr, sr⟩ := by
      rw [Keysym.input, if_neg ho, if_neg hae, if_neg hback, if_neg hspace, if_neg hreturn,
        if_pos hf5]
    refine ⟨_, line, ?_, by rw [Event.input, hinput]; rfl⟩
    rw [handleEvent, handleKey, if_neg hup, if_neg ho, if_neg hae, if_neg hnback, if_neg hspace,
      if_neg hreturn, if_pos hf5]
  · refine follows_of_nothing ?_ ?_
    · rw [Event.input, Keysym.input, if_neg ho, if_neg hae, if_neg hback, if_neg hspace,
        if_neg hreturn, if_neg hf5]
    · rw [handleEvent, handleKey, if_neg hup, if_neg ho, if_neg hae, if_neg hnback, if_neg hspace,
        if_neg hreturn, if_neg hf5]

/-- **One event.** -/
theorem follows (line : List Letter) {e : Event} (he : e.Encoded) : Follows line e := by
  cases e with
  | key k t =>
    cases t with
    | down => exact follows_down line k
    | up => exact follows_up line k
  | override text =>
    obtain ⟨cells, hcells⟩ := Option.isSome_iff_exists.1 he
    refine ⟨⟨none, encode cells⟩, cells, ?_, ?_⟩
    · rw [handleEvent, encode_of_decode hcells]
    · rw [Event.input, hcells]
      rfl

/-- **The terminal is a line editor.** In every run, what it publishes and its line are those of an
editor of letters, as bytes, if the texts that come from elsewhere are of these letters. -/
theorem handleEvents_eq (events : List Event) (h : ∀ e ∈ events, e.Encoded) :
    Machine.outputs handleEvent [] events =
      Machine.outputs (fun line e ↦ Editor.step line (Event.input e)) [] events := by
  refine Machine.outputs_eq (R := fun cmdBuffer line ↦ cmdBuffer = encode line) ?_ rfl
    (Machine.Guarded.of_mem h [])
  rintro _ line e rfl he
  obtain ⟨shown, line', hview, heditor⟩ := follows line he
  exact ⟨shown, _, _, hview, heditor, rfl⟩

/-- A letter is typed and erased, and a command is given. -/
def session : List Event :=
  [.key ⟨utf16O, true⟩ .up, .key ⟨115, false⟩ .down, .key ⟨115, false⟩ .up,
    .key ⟨utf16AE, false⟩ .up, .key ⟨sdlkBackspace, false⟩ .up, .key ⟨sdlkSpace, false⟩ .up,
    .override [115, 101, 32, 0xC3, 0xA5], .key ⟨sdlkReturn, false⟩ .up]

theorem handleEvents_eq_session :
    Machine.outputs handleEvent [] session =
        Machine.outputs (fun line e ↦ Editor.step line (Event.input e)) [] session ∧
      (Machine.outputs handleEvent [] session).map (·.filterMap Shown.published) =
        some [⟨[115, 101], [0xC3, 0xA5]⟩] :=
  ⟨handleEvents_eq session (by decide +kernel), by decide +kernel⟩

end Ocs
