import R2DTU.Executor.Fbt1
import R2DTU.Operator.Gamepad
import R2DTU.Operator.Terminal

/-!
# The window of the operator

The window has six viewports in two rows, and each of them shows a view. Views are not told which
viewports show them: they count, and a view is rendered as long as its count is above zero. A click
on the title bar of a viewport opens a list of the views over it, and a click on a line of the list
chooses a view.

`Board` is the same thing without counters and pixels: six panels that show views, and a menu that
may be open in one of them. The window follows it in every run (`outputs_window_iff`), but for one
row of pixels. Where the menu of a viewport is open, a click on the first row of its title bar asks
for the view number `-1`, because the division that finds the line rounds towards zero and is exact
there. Two clicks on other rows choose a view from any state of a run (`choose_view`).
-/

namespace Ocs

open Executor (StateCmd)

/-- `Vec2i`: a position or a size in pixels. -/
structure Vec2i where
  x : ℤ
  y : ℤ
  deriving DecidableEq

/-- `TITLEBAR_HEIGHT`: the bar over a view, on which a click opens the list of views. -/
def titlebarHeight : ℤ := 20

/-- `VIEW_WIDTH`: how wide a view is drawn. -/
def viewWidth : ℤ := 640

/-- `VIEW_HEIGHT`: how high a view is drawn. -/
def viewHeight : ℤ := 480

/-- `PANEL_WIDTH`: the distance of two viewports in a row. -/
def panelWidth : ℤ := viewWidth

/-- `PANEL_HEIGHT`: the distance of the rows, a view and its title bar. -/
def panelHeight : ℤ := viewHeight + titlebarHeight

/-- `TOPBAR_HEIGHT`: what is above the viewports. -/
def topbarHeight : ℤ := 40

/-- `DROPDOWN_LINE_HEIGHT`: the height of a line in the list of views. -/
def dropdownLineHeight : ℤ := 20

/-- `NUM_VIEWPORTS`: how many viewports there are. -/
def numViewports : ℕ := 6

/-- `NUM_COLS`: how many viewports are in a row. -/
def numCols : ℤ := 3

/-- `MouseButton`: the button of a click, which only views look at. -/
inductive MouseButton
  | left
  | right
  deriving DecidableEq

/-- A view, as far as the window looks at it: `num_viewports`. -/
structure View where
  /-- How many viewports show it. -/
  numViewports : ℤ

def View.isVisible (v : View) : Bool := 0 < v.numViewports

def View.incViewport (v : View) : View := ⟨v.numViewports + 1⟩

def View.decViewport (v : View) : View := ⟨v.numViewports - 1⟩

/-- The element of a vector or an array, if the index is one of it. -/
def at? {α : Type*} (l : List α) (i : ℤ) : Option α := if 0 ≤ i then l[i.toNat]? else none

/-- The window. Viewports point to views, here by their places in `views_`. -/
structure Window where
  /-- The views that were registered, with the empty one first. -/
  views : List View
  /-- The view each viewport shows. -/
  viewports : List ℕ
  /-- The viewport whose list is open, or `-1`. -/
  dropdownViewport : ℤ
  /-- How high the list is, as of when it was opened. -/
  dropdownHeight : ℤ
  /-- The view that gets keys. -/
  activeView : ℤ
  /-- What is kept of the game pad. -/
  gamepad : GamepadInput

namespace Window

/-- What the window hands on, and what it draws. -/
inductive Output
  | click (view : ℕ) (pos : Vec2i) (button : MouseButton)
  | key (view : ℕ) (key : Keysym) (type : KeyType)
  | gamepad (msg : GamepadMsg)
  | stateCmd (cmd : StateCmd)
  | parentTick (view : ℕ)
  | drawToScreen (view : ℕ) (pos : Vec2i)
  | dropdown (pos size : Vec2i)

/-- The constructor: all viewports show the empty view. -/
def new : Window := ⟨[⟨6⟩], List.replicate numViewports 0, -1, -1, 0, .new⟩

/-- `register_view`: one more view for the list, which no viewport shows. -/
def registerView (w : Window) : Window := { w with views := w.views ++ [⟨0⟩] }

/-- `calculate_viewport_pos`: the corner of a viewport on the screen. -/
def calculateViewportPos (i : ℤ) : Vec2i :=
  ⟨panelWidth * i.tmod numCols, panelHeight * i.tdiv numCols + topbarHeight⟩

/-- `draw_dropdown`, as far as the height of the list goes. -/
def drawDropdown (w : Window) : Window :=
  { w with dropdownHeight := w.views.length * dropdownLineHeight }

/-- The loop of `calculate_mouse_event_viewport`. -/
def mouseEventViewport (pos : Vec2i) : List ℕ → ℤ × Vec2i
  | [] => (-1, pos)
  | i :: is =>
    let corner := calculateViewportPos i
    let x2 := viewWidth + corner.x
    let y2 := viewHeight + corner.y
    if pos.x ≥ corner.x ∧ pos.x ≤ x2 ∧ pos.y ≥ corner.y ∧ pos.y ≤ y2 then
      (i, ⟨pos.x - corner.x, pos.y - corner.y⟩)
    else mouseEventViewport pos is

/-- `calculate_mouse_event_viewport`: the first viewport that is at a position, and the position in
it. -/
def calculateMouseEventViewport (pos : Vec2i) : ℤ × Vec2i :=
  mouseEventViewport pos (List.range numViewports)

/-- `set_viewport`. It fails if a number is out of range. -/
def setViewport (w : Window) (viewport viewId : ℤ) : Option Window :=
  match at? w.viewports viewport with
  | none => none
  | some old =>
    if 0 ≤ viewId ∧ viewId < w.views.length then
      some { w with
        views := (w.views.modify old View.decViewport).modify viewId.toNat View.incViewport
        viewports := w.viewports.set viewport.toNat viewId.toNat }
    else none

/-- `handle_dropdown_click`: the view of a line is put where the list is open, and the list
closes. -/
def handleDropdownClick (w : Window) (pos : Vec2i) : Option Window :=
  let item := (pos.y - titlebarHeight).tdiv dropdownLineHeight
  (w.setViewport w.dropdownViewport item).map fun w ↦ { w with dropdownViewport := -1 }

/-- `handle_click`: a click is for the list, for a title bar or for the view of a viewport. -/
def handleClick (w : Window) (pos : Vec2i) (button : MouseButton) :
    Option (List Output × Window) :=
  let (viewport, viewPos) := calculateMouseEventViewport pos
  if viewport = -1 then some ([], w)
  else if viewport = w.dropdownViewport ∧ viewPos.y < w.dropdownHeight + titlebarHeight then
    (w.handleDropdownClick viewPos).map fun w ↦ ([], w)
  else if viewPos.y < titlebarHeight then
    some ([], { w with dropdownViewport := viewport }.drawDropdown)
  else
    (at? w.viewports viewport).map fun view ↦
      ([.click view ⟨viewPos.x, viewPos.y - titlebarHeight⟩ button],
        { w with dropdownViewport := -1 })

/-- `SDLK_RIGHT`: the key that stands for `GAMEPAD_DRIGHT`. -/
def sdlkRight : ℕ := 0x4000004F

/-- `SDLK_LEFT`: the key that stands for `GAMEPAD_DLEFT`. -/
def sdlkLeft : ℕ := 0x40000050

/-- `SDLK_DOWN`: the key that stands for `GAMEPAD_DDOWN`. -/
def sdlkDown : ℕ := 0x40000051

/-- `SDLK_UP`: the key that stands for `GAMEPAD_DUP`. -/
def sdlkUp : ℕ := 0x40000052

/-- `SDLK_F1`: the key by which the operator confirms. -/
def sdlkF1 : ℕ := 0x4000003A

/-- `SDLK_F2`: the key for the state before. -/
def sdlkF2 : ℕ := 0x4000003B

/-- `SDLK_F3`: the key for the next state. -/
def sdlkF3 : ℕ := 0x4000003C

/-- `SDLK_F12`: the key that stands for `GAMEPAD_X`. -/
def sdlkF12 : ℕ := 0x40000045

/-- The button that a key stands for: `GAMEPAD_DDOWN`, `GAMEPAD_DRIGHT`, `GAMEPAD_DLEFT`,
`GAMEPAD_DUP` or `GAMEPAD_X`. -/
def fakeButton (sym : ℕ) : Option ℕ :=
  if sym = sdlkDown then some 16
  else if sym = sdlkRight then some 15
  else if sym = sdlkLeft then some 17
  else if sym = sdlkUp then some 14
  else if sym = sdlkF12 then some 3
  else none

/-- The command that a key stands for. -/
def stateCmdOf (sym : ℕ) : Option StateCmd :=
  if sym = sdlkF1 then some .confirm
  else if sym = sdlkF2 then some .back
  else if sym = sdlkF3 then some .next
  else none

/-- What a key is besides a key for the active view. -/
def keyOutputs (key : Keysym) (type : KeyType) (timestamp : ℕ) : List Output :=
  (fakeButton key.sym).toList.flatMap (fun button ↦
      (GamepadInput.handleButton ⟨timestamp, button, if type = .down then 1 else 0⟩).map
        .gamepad) ++
    if type = .down then (stateCmdOf key.sym).toList.map .stateCmd else []

/-- The events that `tick` polls. -/
inductive Event
  | mouseButtonDown (pos : Vec2i) (button : MouseButton)
  | gamepad (event : GamepadInput.Event)
  | key (key : Keysym) (type : KeyType) (timestamp : ℕ)
  | other

/-- One event. -/
def handleEvent (w : Window) : Event → Option (List Output × Window)
  | .mouseButtonDown pos button => w.handleClick pos button
  | .gamepad event =>
    some ((w.gamepad.step event).1.map .gamepad, { w with gamepad := (w.gamepad.step event).2 })
  | .key key type timestamp =>
    (at? w.views w.activeView).map fun _ ↦
      (.key w.activeView.toNat key type :: keyOutputs key type timestamp, w)
  | .other => some ([], w)

/-- What `tick` does when there are no more events. -/
def render (w : Window) : List Output :=
  ((List.range w.views.length).filter fun i ↦ (w.views[i]?).any View.isVisible).map .parentTick ++
    (w.viewports.zipIdx.map fun (view, i) ↦ .drawToScreen view (calculateViewportPos i)) ++
    if w.dropdownViewport ≠ -1 then
      let pos := calculateViewportPos w.dropdownViewport
      [.dropdown ⟨pos.x, pos.y + titlebarHeight⟩
        ⟨panelWidth, w.dropdownHeight + dropdownLineHeight⟩]
    else []

/-- What is done to the window. A `tick` is some events and then `render`, unless the window is
closed among them; views are registered and placed by the module that owns the window. -/
inductive Input
  | registerView
  | setViewport (viewport viewId : ℤ)
  | setActive (view : ℤ)
  | event (event : Event)
  | render

def step (w : Window) : Input → Option (List Output × Window)
  | .registerView => some ([], w.registerView)
  | .setViewport viewport viewId => (w.setViewport viewport viewId).map fun w ↦ ([], w)
  | .setActive view => some ([], { w with activeView := view })
  | .event event => w.handleEvent event
  | .render => some (w.render, w)

end Window

/-! ### The board -/

/-- Where a panel begins. -/
def corner (j : Fin 6) : Vec2i := ⟨640 * (j.val % 3 : ℕ), 500 * (j.val / 3 : ℕ) + 40⟩

/-- The position is on a panel. Panels that are side by side share a column, and the last rows of a
panel are no part of it. -/
def Touches (pos : Vec2i) (j : Fin 6) : Prop :=
  (corner j).x ≤ pos.x ∧ pos.x ≤ (corner j).x + 640 ∧
    (corner j).y ≤ pos.y ∧ pos.y ≤ (corner j).y + 480

instance (pos : Vec2i) : DecidablePred (Touches pos) := fun j ↦
  inferInstanceAs (Decidable ((corner j).x ≤ pos.x ∧ pos.x ≤ (corner j).x + 640 ∧
    (corner j).y ≤ pos.y ∧ pos.y ≤ (corner j).y + 480))

/-- The panel of a position, its viewport in the window: a shared column belongs to the panel on the
left. -/
def panelAt (pos : Vec2i) : Option (Fin 6) := (List.finRange 6).find? fun j ↦ Touches pos j

/-- **Six panels** that show views, with a menu that lists the first views over one of them. -/
structure Board where
  /-- How many views there are. -/
  views : ℕ
  /-- The view a panel shows. -/
  shows : Fin 6 → ℕ
  /-- The panel with the menu, and its number of lines. -/
  menu : Option (Fin 6 × ℕ)
  /-- The view that gets keys. -/
  activeView : ℤ
  /-- What is kept of the game pad. -/
  gamepad : GamepadInput

namespace Board

open Window (Output)

def new : Board := ⟨1, fun _ ↦ 0, none, 0, .new⟩

/-- The line of the list that a row is in. The title bar over the list belongs to the first line. -/
def lineAt (y : ℤ) : ℕ := (y - 20).toNat / 20

/-- The row is in the menu of the panel. -/
def InMenu (b : Board) (j : Fin 6) (y : ℤ) : Prop :=
  ∃ m ∈ b.menu, m.1 = j ∧ y < 20 * m.2 + 20

instance (b : Board) (j : Fin 6) (y : ℤ) : Decidable (b.InMenu j y) :=
  inferInstanceAs (Decidable (∃ m ∈ b.menu, m.1 = j ∧ y < 20 * m.2 + 20))

/-- A click chooses a view, or opens or closes the menu. -/
def click (b : Board) (pos : Vec2i) (button : MouseButton) : List Output × Board :=
  match panelAt pos with
  | none => ([], b)
  | some j =>
    let y := pos.y - (corner j).y
    if b.InMenu j y then
      ([], { b with shows := Function.update b.shows j (lineAt y), menu := none })
    else if y < 20 then ([], { b with menu := some (j, b.views) })
    else ([.click (b.shows j) ⟨pos.x - (corner j).x, y - 20⟩ button], { b with menu := none })

/-- The views that some panel shows are rendered. -/
def render (b : Board) : List Output :=
  ((List.range b.views).filter fun i ↦ ∃ j, b.shows j = i).map .parentTick ++
    (List.finRange 6).map (fun j ↦ .drawToScreen (b.shows j) (corner j)) ++
    match b.menu with
    | none => []
    | some (j, lines) => [.dropdown ⟨(corner j).x, (corner j).y + 20⟩ ⟨640, 20 * lines + 20⟩]

def step (b : Board) : Window.Input → Option (List Output × Board)
  | .registerView => some ([], { b with views := b.views + 1 })
  | .setViewport viewport viewId =>
    some ([], { b with
      shows := fun j ↦ if (j.val : ℤ) = viewport then viewId.toNat else b.shows j })
  | .setActive view => some ([], { b with activeView := view })
  | .event (.mouseButtonDown pos button) => some (b.click pos button)
  | .event (.gamepad event) =>
    some ((b.gamepad.step event).1.map .gamepad, { b with gamepad := (b.gamepad.step event).2 })
  | .event (.key key type timestamp) =>
    some (.key b.activeView.toNat key type :: Window.keyOutputs key type timestamp, b)
  | .event .other => some ([], b)
  | .render => some (b.render, b)

/-- **What the window needs**: numbers of viewports and views that are there, and no click on the
first row of the panel with the menu. -/
def Allows (b : Board) : Window.Input → Prop
  | .setViewport viewport viewId =>
    (0 ≤ viewport ∧ viewport < 6) ∧ 0 ≤ viewId ∧ viewId < b.views
  | .event (.key _ _ _) => 0 ≤ b.activeView ∧ b.activeView < b.views
  | .event (.mouseButtonDown pos _) =>
    ∀ j lines, panelAt pos = some j → b.menu = some (j, lines) → pos.y ≠ (corner j).y
  | _ => True

end Board

/-- **The window follows the board.** The number of viewports of a view is how often it is shown. -/
structure Window.Follows (w : Window) (b : Board) : Prop where
  /-- Both have as many views. -/
  length_views : w.views.length = b.views
  /-- Viewports show what panels show. -/
  viewports_eq : w.viewports = List.ofFn b.shows
  /-- That is a view. -/
  shows_lt : ∀ j, b.shows j < b.views
  /-- The count of a view is right. -/
  numViewports_eq {i : ℕ} {v : View} (h : w.views[i]? = some v) :
    v.numViewports = w.viewports.count i
  /-- No list is open if there is no menu. -/
  dropdown_none (h : b.menu = none) : w.dropdownViewport = -1
  /-- The list is where the menu is, and has its lines. -/
  dropdown_some {j : Fin 6} {lines : ℕ} (h : b.menu = some (j, lines)) :
    w.dropdownViewport = j.val ∧ w.dropdownHeight = 20 * lines ∧ 0 < lines ∧ lines ≤ b.views
  activeView_eq : w.activeView = b.activeView
  gamepad_eq : w.gamepad = b.gamepad

namespace Window

variable {w : Window} {b : Board} {j : Fin 6}

/-! ### Positions -/

theorem calculateViewportPos_eq (j : Fin 6) : calculateViewportPos j.val = corner j := by
  revert j
  decide

theorem mouseEventViewport_eq (pos : Vec2i) (js : List (Fin 6)) :
    mouseEventViewport pos (js.map Fin.val) = ((js.find? fun j ↦ Touches pos j).map fun j ↦
      ((j.val : ℤ), (⟨pos.x - (corner j).x, pos.y - (corner j).y⟩ : Vec2i))).getD (-1, pos) := by
  induction js with
  | nil => rfl
  | cons j js ih =>
    have htouches : (pos.x ≥ (corner j).x ∧ pos.x ≤ viewWidth + (corner j).x ∧
        pos.y ≥ (corner j).y ∧ pos.y ≤ viewHeight + (corner j).y) ↔ Touches pos j := by
      rw [Touches, viewWidth, viewHeight]
      omega
    rw [List.map_cons, mouseEventViewport]
    simp only [calculateViewportPos_eq, htouches]
    rw [List.find?_cons]
    split_ifs with h
    · rw [decide_eq_true h]
      rfl
    · rw [decide_eq_false h, ih]

theorem calculateMouseEventViewport_eq (pos : Vec2i) :
    calculateMouseEventViewport pos = ((panelAt pos).map fun j ↦
      ((j.val : ℤ), (⟨pos.x - (corner j).x, pos.y - (corner j).y⟩ : Vec2i))).getD (-1, pos) :=
  mouseEventViewport_eq pos (List.finRange 6)

/-- The line that a row is in, but for the row above the menu. -/
theorem tdiv_eq_lineAt {y : ℤ} (hy : 0 < y) :
    (y - titlebarHeight).tdiv dropdownLineHeight = Board.lineAt y := by
  rw [titlebarHeight, dropdownLineHeight, Board.lineAt]
  rcases le_total 20 y with hle | hle
  · rw [Int.tdiv_eq_ediv_of_nonneg (by omega)]
    omega
  · have hneg : y - 20 = -(20 - y) := by omega
    rw [hneg, Int.neg_tdiv, Int.tdiv_eq_zero_of_lt (by omega) (by omega)]
    omega

/-! ### Viewports -/

/-- The place of a panel in the array. -/
theorem at?_ofFn (shows : Fin 6 → ℕ) (j : Fin 6) :
    at? (List.ofFn shows) j.val = some (shows j) := by
  rw [at?, if_pos (Int.natCast_nonneg _), Int.toNat_natCast, List.getElem?_ofFn, dif_pos j.isLt]

theorem at?_eq_none {α : Type*} {l : List α} {i : ℤ} (h : ¬ (0 ≤ i ∧ i < l.length)) :
    at? l i = none := by
  rw [at?]
  split_ifs with hi
  · refine List.getElem?_eq_none ?_
    omega
  · rfl

theorem set_ofFn (shows : Fin 6 → ℕ) (j : Fin 6) (view : ℕ) :
    (List.ofFn shows).set j view = List.ofFn (Function.update shows j view) := by
  refine List.ext_getElem (by simp) fun i hi hi' ↦ ?_
  rw [List.getElem_set, List.getElem_ofFn, List.getElem_ofFn, Function.update_apply]
  simp only [Fin.ext_iff, eq_comm]

/-- Moving a viewport from one view to another one. -/
theorem numViewports_move {views : List View} {viewports : List ℕ} {i old new : ℕ}
    (hviews : ∀ {k : ℕ} {v : View}, views[k]? = some v → v.numViewports = viewports.count k)
    (hold : viewports[i]? = some old) {k : ℕ} {v : View}
    (hv : ((views.modify old View.decViewport).modify new View.incViewport)[k]? = some v) :
    v.numViewports = (viewports.set i new).count k := by
  obtain ⟨hi, rfl⟩ := List.getElem?_eq_some_iff.1 hold
  have hpos : viewports[i] = k → 0 < viewports.count k := fun h ↦
    List.count_pos_iff.2 (h ▸ List.getElem_mem hi)
  rw [List.getElem?_modify, List.getElem?_modify, Option.map_eq_map, Option.map_eq_map,
    Option.map_map] at hv
  obtain ⟨v₀, hv₀, rfl⟩ := Option.map_eq_some_iff.1 hv
  have hcount := hviews hv₀
  rw [List.count_set hi]
  simp only [beq_iff_eq, Function.comp_apply]
  split_ifs with hnew hold' hold'
  · have := hpos hold'
    simp only [View.incViewport, View.decViewport]
    omega
  · simp only [View.incViewport]
    omega
  · have := hpos hold'
    simp only [View.decViewport]
    omega
  · omega

/-- **A viewport shows another view.** -/
theorem Follows.setViewport (h : w.Follows b) (j : Fin 6) {viewId : ℤ}
    (hid : 0 ≤ viewId ∧ viewId < b.views) :
    ∃ w', w.setViewport j.val viewId = some w' ∧
      w'.Follows { b with shows := Function.update b.shows j viewId.toNat } := by
  have hold : w.viewports[j.val]? = some (b.shows j) := by
    rw [h.viewports_eq, List.getElem?_ofFn, dif_pos j.isLt]
  have hat : at? w.viewports j.val = some (b.shows j) := by
    rw [h.viewports_eq, at?_ofFn]
  rw [Window.setViewport, hat]
  dsimp only
  rw [if_pos (by rwa [h.length_views])]
  refine ⟨_, rfl, ?_⟩
  exact {
    length_views := by
      rw [List.length_modify, List.length_modify]
      exact h.length_views
    viewports_eq := by
      dsimp only
      rw [h.viewports_eq, Int.toNat_natCast, set_ofFn]
    shows_lt := fun k ↦ by
      dsimp only
      rw [Function.update_apply]
      split_ifs
      · omega
      · exact h.shows_lt k
    numViewports_eq := fun hv ↦ numViewports_move h.numViewports_eq hold hv
    dropdown_none := h.dropdown_none
    dropdown_some := h.dropdown_some
    activeView_eq := h.activeView_eq
    gamepad_eq := h.gamepad_eq }

/-- Numbers that are not there. -/
theorem Follows.setViewport_eq_none (h : w.Follows b) {viewport viewId : ℤ}
    (hnot : ¬ ((0 ≤ viewport ∧ viewport < 6) ∧ 0 ≤ viewId ∧ viewId < b.views)) :
    w.setViewport viewport viewId = none := by
  rw [Window.setViewport]
  by_cases hviewport : 0 ≤ viewport ∧ viewport < 6
  · split
    · rfl
    · rw [if_neg fun hid ↦ hnot ⟨hviewport, by rwa [h.length_views] at hid⟩]
  · rw [at?_eq_none (by rw [h.viewports_eq, List.length_ofFn]; exact hviewport)]

/-! ### Clicks -/

/-- The counters and the places of a window that follows, with another menu. -/
theorem Follows.withMenu (h : w.Follows b) {viewport height : ℤ} {menu : Option (Fin 6 × ℕ)}
    (hnone : menu = none → viewport = -1)
    (hsome : ∀ {j lines}, menu = some (j, lines) →
      viewport = j.val ∧ height = 20 * lines ∧ 0 < lines ∧ lines ≤ b.views) :
    Follows { w with dropdownViewport := viewport, dropdownHeight := height }
      { b with menu := menu } :=
  { h with
    dropdown_none := hnone
    dropdown_some := hsome }

/-- A row is in the list of the window if it is in the menu. -/
theorem Follows.inMenu_iff (h : w.Follows b) (j : Fin 6) (y : ℤ) :
    ((j.val : ℤ) = w.dropdownViewport ∧ y < w.dropdownHeight + titlebarHeight) ↔ b.InMenu j y := by
  rw [Board.InMenu, titlebarHeight]
  rcases hmenu : b.menu with _ | ⟨k, lines⟩
  · rw [h.dropdown_none hmenu]
    refine iff_of_false (fun hrow ↦ ?_) (fun ⟨m, hm, _⟩ ↦ absurd hm nofun)
    omega
  · obtain ⟨hviewport, hheight, -⟩ := h.dropdown_some hmenu
    rw [hviewport, hheight]
    constructor
    · rintro ⟨hj, hy⟩
      exact ⟨_, rfl, Fin.ext (by show k.val = j.val; omega), hy⟩
    · rintro ⟨m, hm, hj, hy⟩
      obtain rfl := Option.some.inj hm
      exact ⟨by rw [← hj], hy⟩

/-- A click that chooses a view. -/
theorem Follows.handleDropdownClick (h : w.Follows b) {pos : Vec2i} (hpos : 0 < pos.y)
    (hmenu : b.InMenu j pos.y) :
    ∃ w', w.handleDropdownClick pos = some w' ∧ w'.Follows { b with
      shows := Function.update b.shows j (Board.lineAt pos.y)
      menu := none } := by
  obtain ⟨⟨k, lines⟩, hm, rfl, hy⟩ := hmenu
  obtain ⟨hviewport, -, hlines, hle⟩ := h.dropdown_some hm
  have hline : Board.lineAt pos.y < b.views := by
    rw [Board.lineAt]
    dsimp only at hy
    omega
  have hid : 0 ≤ (Board.lineAt pos.y : ℤ) ∧ (Board.lineAt pos.y : ℤ) < b.views := by omega
  obtain ⟨w', hset, hfollows⟩ := h.setViewport k hid
  rw [Window.handleDropdownClick, tdiv_eq_lineAt hpos, hviewport, hset]
  rw [Int.toNat_natCast] at hfollows
  exact ⟨_, rfl, hfollows.withMenu (fun _ ↦ rfl) nofun⟩

/-- A click on the first row of the panel with the menu. -/
theorem Follows.handleDropdownClick_eq_none (h : w.Follows b) {pos : Vec2i} (hpos : pos.y = 0) :
    w.handleDropdownClick pos = none := by
  have hitem : (pos.y - titlebarHeight).tdiv dropdownLineHeight = -1 := by
    rw [hpos]
    rfl
  rw [Window.handleDropdownClick, hitem, h.setViewport_eq_none (by omega)]
  rfl

/-- The rows of a panel are counted from its first one. -/
theorem row_nonneg {pos : Vec2i} (hpanel : panelAt pos = some j) : 0 ≤ pos.y - (corner j).y := by
  rw [panelAt] at hpanel
  have hsome := List.find?_some hpanel
  have htouches : Touches pos j := of_decide_eq_true hsome
  have := htouches.2.2.1
  omega

/-- **A click** that the board allows. -/
theorem Follows.handleClick (h : w.Follows b) {pos : Vec2i} {button : MouseButton}
    (hallows : b.Allows (.event (.mouseButtonDown pos button))) :
    ∃ w', w.handleClick pos button = some ((b.click pos button).1, w') ∧
      w'.Follows (b.click pos button).2 := by
  rw [Window.handleClick, calculateMouseEventViewport_eq, Board.click]
  rcases hpanel : panelAt pos with _ | j
  · exact ⟨w, rfl, h⟩
  · have hne : (j.val : ℤ) ≠ -1 := by omega
    simp only [Option.map_some, Option.getD_some, if_neg hne, h.inMenu_iff]
    rw [show titlebarHeight = 20 from rfl]
    split_ifs with hmenu hbar
    · obtain ⟨m, hm, hj, hrow⟩ := hmenu
      have hfirst := hallows j m.2 hpanel (hj ▸ hm)
      have hnonneg := row_nonneg hpanel
      have hrow' : b.InMenu j (Vec2i.mk (pos.x - (corner j).x) (pos.y - (corner j).y)).y :=
        ⟨m, hm, hj, hrow⟩
      obtain ⟨w', hclick, hfollows⟩ := h.handleDropdownClick (by dsimp only; omega) hrow'
      rw [hclick]
      exact ⟨w', rfl, hfollows⟩
    · refine ⟨_, rfl, h.withMenu nofun fun hm ↦ ?_⟩
      obtain ⟨rfl, rfl⟩ := Prod.mk.inj (Option.some.inj hm)
      refine ⟨rfl, ?_, (Nat.zero_le _).trans_lt (h.shows_lt j), le_rfl⟩
      rw [h.length_views, dropdownLineHeight, mul_comm]
    · have hat : at? w.viewports j.val = some (b.shows j) := by rw [h.viewports_eq, at?_ofFn]
      rw [hat]
      exact ⟨_, rfl, h.withMenu (fun _ ↦ rfl) fun hm ↦ absurd hm.symm (Option.some_ne_none _)⟩

/-- A click that the board does not allow. -/
theorem Follows.handleClick_eq_none (h : w.Follows b) {pos : Vec2i} {button : MouseButton}
    (hnot : ¬ b.Allows (.event (.mouseButtonDown pos button))) :
    w.handleClick pos button = none := by
  simp only [Board.Allows, not_forall, not_not] at hnot
  obtain ⟨j, lines, hpanel, hmenu, hrow⟩ := hnot
  have hzero : pos.y - (corner j).y = 0 := by omega
  have hne : (j.val : ℤ) ≠ -1 := by omega
  have hin : b.InMenu j (pos.y - (corner j).y) := ⟨_, hmenu, rfl, by dsimp only; omega⟩
  rw [Window.handleClick, calculateMouseEventViewport_eq, hpanel]
  simp only [Option.map_some, Option.getD_some, if_neg hne, h.inMenu_iff, if_pos hin]
  rw [h.handleDropdownClick_eq_none hzero]
  rfl

/-! ### Drawing -/

theorem zipIdx_ofFn {α : Type*} {n : ℕ} (f : Fin n → α) :
    (List.ofFn f).zipIdx = (List.finRange n).map fun j ↦ (f j, j.val) := by
  refine List.ext_getElem (by simp) fun i hi hi' ↦ ?_
  simp

/-- A view is visible if a panel shows it. -/
theorem Follows.isVisible_iff (h : w.Follows b) {i : ℕ} (hi : i < b.views) :
    (w.views[i]?).any View.isVisible = true ↔ ∃ j, b.shows j = i := by
  have hlt : i < w.views.length := by rwa [h.length_views]
  have hget : w.views[i]? = some w.views[i] := List.getElem?_eq_getElem hlt
  rw [hget, Option.any_some, View.isVisible, decide_eq_true_iff, h.numViewports_eq hget,
    Int.natCast_pos, List.count_pos_iff, h.viewports_eq, List.mem_ofFn]

/-- **The views that are rendered** are those that are shown. -/
theorem Follows.render_eq (h : w.Follows b) : w.render = b.render := by
  have hvisible : ((List.range w.views.length).filter fun i ↦ (w.views[i]?).any View.isVisible) =
      (List.range b.views).filter fun i ↦ ∃ j, b.shows j = i := by
    rw [h.length_views]
    refine List.filter_congr fun i hi ↦ ?_
    rw [Bool.eq_iff_iff, h.isVisible_iff (List.mem_range.1 hi), decide_eq_true_iff]
  have hdrawn : (w.viewports.zipIdx.map fun (view, i) ↦
      Output.drawToScreen view (calculateViewportPos i)) =
        (List.finRange 6).map fun j ↦ .drawToScreen (b.shows j) (corner j) := by
    rw [h.viewports_eq, zipIdx_ofFn, List.map_map]
    refine List.map_congr_left fun j _ ↦ ?_
    show Output.drawToScreen (b.shows j) (calculateViewportPos j.val) = _
    rw [calculateViewportPos_eq]
  rw [Window.render, Board.render, hvisible, hdrawn]
  rcases hmenu : b.menu with _ | ⟨j, lines⟩
  · rw [h.dropdown_none hmenu]
    rfl
  · obtain ⟨hviewport, hheight, -⟩ := h.dropdown_some hmenu
    have hne : (j.val : ℤ) ≠ -1 := by omega
    rw [hviewport, hheight, if_pos hne, calculateViewportPos_eq]
    rfl

/-! ### Runs -/

theorem Follows.new : Follows new Board.new :=
  { length_views := rfl
    viewports_eq := rfl
    shows_lt := fun _ ↦ Nat.one_pos
    numViewports_eq := by
      intro i v hv
      obtain ⟨hi, rfl⟩ := List.getElem?_eq_some_iff.1 hv
      obtain rfl : i = 0 := Nat.lt_one_iff.1 hi
      rfl
    dropdown_none := fun _ ↦ rfl
    dropdown_some := fun h ↦ absurd h.symm (Option.some_ne_none _)
    activeView_eq := rfl
    gamepad_eq := rfl }

/-- A view that no viewport shows yet. -/
theorem Follows.registerView (h : w.Follows b) :
    w.registerView.Follows { b with views := b.views + 1 } :=
  { h with
    length_views := by
      rw [Window.registerView, List.length_append, h.length_views]
      rfl
    shows_lt := fun j ↦ Nat.lt_succ_of_lt (h.shows_lt j)
    numViewports_eq := by
      intro i v hv
      rw [Window.registerView, List.getElem?_append] at hv
      split_ifs at hv with hi
      · exact h.numViewports_eq hv
      · rw [h.length_views] at hi
        have hfresh : i ∉ w.viewports := by
          rw [h.viewports_eq, List.mem_ofFn]
          rintro ⟨j, rfl⟩
          exact hi (h.shows_lt j)
        obtain ⟨hlt, rfl⟩ := List.getElem?_eq_some_iff.1 hv
        show (([⟨0⟩] : List View)[i - w.views.length]).numViewports = w.viewports.count i
        rw [List.count_eq_zero.2 hfresh, List.getElem_singleton]
        rfl
    dropdown_some := fun hmenu ↦
      have ⟨hviewport, hheight, hlines, hle⟩ := h.dropdown_some hmenu
      ⟨hviewport, hheight, hlines, Nat.le_succ_of_le hle⟩ }

/-- **One input** that the board allows. -/
theorem Follows.step (h : w.Follows b) {i : Input} (hallows : b.Allows i) :
    ∃ o w' b', w.step i = some (o, w') ∧ b.step i = some (o, b') ∧ w'.Follows b' := by
  rcases i with _ | ⟨viewport, viewId⟩ | view | event | _
  · exact ⟨_, _, _, rfl, rfl, h.registerView⟩
  · obtain ⟨hviewport, hid⟩ := hallows
    obtain ⟨j, rfl⟩ : ∃ j : Fin 6, viewport = j.val :=
      ⟨⟨viewport.toNat, by omega⟩, by dsimp only; omega⟩
    obtain ⟨w', hset, hfollows⟩ := h.setViewport j hid
    have hshows : (fun k : Fin 6 ↦ if (k.val : ℤ) = j.val then viewId.toNat else b.shows k) =
        Function.update b.shows j viewId.toNat := by
      funext k
      rw [Function.update_apply]
      simp only [Nat.cast_inj, Fin.ext_iff]
    rw [Window.step, hset, Board.step, hshows]
    exact ⟨_, w', _, rfl, rfl, hfollows⟩
  · exact ⟨_, _, _, rfl, rfl, { h with activeView_eq := rfl }⟩
  · rcases event with ⟨pos, button⟩ | event | ⟨key, type, timestamp⟩ | _
    · obtain ⟨w', hclick, hfollows⟩ := h.handleClick hallows
      exact ⟨_, w', _, hclick, rfl, hfollows⟩
    · rw [Window.step, handleEvent, Board.step, h.gamepad_eq]
      exact ⟨_, _, _, rfl, rfl, { h with gamepad_eq := rfl }⟩
    · obtain ⟨hnonneg, hlt⟩ := hallows
      have hview : w.activeView.toNat < w.views.length := by
        rw [h.activeView_eq, h.length_views]
        omega
      have hsome : at? w.views w.activeView = some w.views[w.activeView.toNat] := by
        rw [at?, if_pos (by rwa [h.activeView_eq]), List.getElem?_eq_getElem]
      refine ⟨_, w, b, ?_, rfl, h⟩
      rw [Window.step, handleEvent, hsome, Option.map_some, h.activeView_eq]
    · exact ⟨_, w, b, rfl, rfl, h⟩
  · exact ⟨_, w, b, rfl, by rw [Board.step, h.render_eq], h⟩

/-- One input that it does not allow. -/
theorem Follows.step_eq_none (h : w.Follows b) {i : Input} (hnot : ¬ b.Allows i) :
    w.step i = none := by
  rcases i with _ | ⟨viewport, viewId⟩ | view | event | _
  · exact absurd trivial hnot
  · rw [Window.step, h.setViewport_eq_none hnot]
    rfl
  · exact absurd trivial hnot
  · rcases event with ⟨pos, button⟩ | event | ⟨key, type, timestamp⟩ | _
    · exact h.handleClick_eq_none hnot
    · exact absurd trivial hnot
    · have hnone : at? w.views w.activeView = none :=
        at?_eq_none (by rw [h.activeView_eq, h.length_views]; exact hnot)
      rw [Window.step, handleEvent, hnone]
      rfl
    · exact absurd trivial hnot
  · exact absurd trivial hnot

/-- **The window follows the board in every run**, as long as the board allows the inputs, and
leaves its arrays at the first input that it does not. -/
theorem outputs_window_iff (is : List Input) (os : List (List Output)) :
    Machine.outputs Window.step new is = some os ↔
      Machine.Guarded Board.step Board.Allows Board.new is ∧
        Machine.outputs Board.step Board.new is = some os :=
  Machine.outputs_eq_some_iff (fun h ↦ h.step) (fun h ↦ h.step_eq_none) Follows.new

-- The first row of the title bar under which the list is open.
example : (Machine.final Window.step new [.event (.mouseButtonDown ⟨5, 45⟩ .left),
    .event (.mouseButtonDown ⟨5, 40⟩ .left)]).isNone := rfl

/-- Every state of a run follows some board. -/
theorem exists_follows {is : List Input} (hfinal : Machine.final Window.step new is = some w) :
    ∃ b, w.Follows b := by
  refine Machine.exists_related (fun {w b i o w'} h hstep ↦ ?_) Follows.new hfinal
  by_cases hallows : b.Allows i
  · obtain ⟨o₁, w₁, b₁, hw, -, hfollows⟩ := h.step hallows
    obtain ⟨-, rfl⟩ := Prod.mk.inj (Option.some.inj (hw.symm.trans hstep))
    exact ⟨b₁, hfollows⟩
  · rw [h.step_eq_none hallows] at hstep
    exact absurd hstep.symm (Option.some_ne_none _)

/-! ### Choosing a view -/

/-- A click on a title bar, but for a menu that hangs there, opens the menu of the panel. -/
theorem click_titlebar {pos : Vec2i} (hpanel : panelAt pos = some j)
    (hout : ¬ b.InMenu j (pos.y - (corner j).y)) (hbar : pos.y - (corner j).y < 20)
    (button : MouseButton) : b.click pos button = ([], { b with menu := some (j, b.views) }) := by
  rw [Board.click, hpanel]
  dsimp only
  rw [if_neg hout, if_pos hbar]

/-- A click on a line of the menu chooses the view of the line. -/
theorem click_line {pos : Vec2i} (hpanel : panelAt pos = some j)
    (hin : b.InMenu j (pos.y - (corner j).y)) {i : ℕ}
    (hline : 20 * i + 20 ≤ pos.y - (corner j).y ∧ pos.y - (corner j).y < 20 * i + 40)
    (button : MouseButton) :
    b.click pos button = ([], { b with shows := Function.update b.shows j i, menu := none }) := by
  have hlineAt : Board.lineAt (pos.y - (corner j).y) = i := by
    rw [Board.lineAt]
    omega
  rw [Board.click, hpanel]
  dsimp only
  rw [if_pos hin, hlineAt]

/-- **Choosing a view** in any state of a run: a click on the title bar of a viewport over which no
list is open, and a click on a line of the list put the view of that line there. The other viewports
keep their views, and no list is open. -/
theorem choose_view {is : List Input} (hfinal : Machine.final Window.step new is = some w)
    (hclosed : w.dropdownViewport ≠ j.val) {pos pos' : Vec2i} {button button' : MouseButton} {i : ℕ}
    (hpanel : panelAt pos = some j) (hbar : pos.y - (corner j).y < 20)
    (hpanel' : panelAt pos' = some j)
    (hline : 20 * i + 20 ≤ pos'.y - (corner j).y ∧ pos'.y - (corner j).y < 20 * i + 40)
    (hi : i < w.views.length) :
    ∃ w', Machine.final Window.step w
        [.event (.mouseButtonDown pos button), .event (.mouseButtonDown pos' button')] = some w' ∧
      w'.viewports = w.viewports.set j i ∧ w'.dropdownViewport = -1 := by
  obtain ⟨b, h⟩ := exists_follows hfinal
  -- The first click opens the list over the viewport.
  have hallows : b.Allows (.event (.mouseButtonDown pos button)) := by
    intro k lines hk hmenu
    obtain rfl := Option.some.inj (hpanel.symm.trans hk)
    exact absurd (h.dropdown_some hmenu).1 hclosed
  obtain ⟨w₁, hclick₁, h₁⟩ := h.handleClick hallows
  have hout : ¬ b.InMenu j (pos.y - (corner j).y) := fun hmenu ↦
    hclosed ((h.inMenu_iff j _).2 hmenu).1.symm
  rw [click_titlebar hpanel hout hbar] at hclick₁ h₁
  -- The second one chooses the view of its line.
  have hallows₁ : Board.Allows { b with menu := some (j, b.views) }
      (.event (.mouseButtonDown pos' button')) := by
    intro k lines hk _
    obtain rfl := Option.some.inj (hpanel'.symm.trans hk)
    omega
  obtain ⟨w₂, hclick₂, h₂⟩ := h₁.handleClick hallows₁
  have hin : Board.InMenu { b with menu := some (j, b.views) } j (pos'.y - (corner j).y) := by
    refine ⟨_, rfl, rfl, ?_⟩
    have := h.length_views
    dsimp only
    omega
  rw [click_line hpanel' hin hline] at hclick₂ h₂
  refine ⟨w₂, ?_, ?_, h₂.dropdown_none rfl⟩
  · rw [Machine.final_cons hclick₁, Machine.final_cons hclick₂]
    rfl
  · rw [h₂.viewports_eq, h.viewports_eq, set_ofFn]

/-- Two clicks in the first column of the window. -/
theorem choose_view_camera : ∃ w', Machine.final Window.step new.registerView
    [.event (.mouseButtonDown ⟨0, 45⟩ .left), .event (.mouseButtonDown ⟨0, 85⟩ .left)] = some w' ∧
      w'.viewports = [1, 0, 0, 0, 0, 0] ∧ w'.dropdownViewport = -1 :=
  choose_view (j := 0) (i := 1)
    (rfl : Machine.final Window.step new [.registerView] = some new.registerView) (by decide)
    (by decide) (by decide) (by decide) (by decide) (by decide)

end Window

end Ocs
