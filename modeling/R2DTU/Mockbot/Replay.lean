import R2DTU.Library.BoundedLoop
import R2DTU.Library.TaggedRecords

/-!
# Recording a robot and playing it back

The recorder writes the images of two cameras to videos and every skeleton to a file, behind the
number of images that have come until then. The player reads an image of each video in a tick,
counts them too, and publishes a skeleton when it has shown as many images as its number says.

The two counts are not the same. The recorder's count has no initial value, and the player stops
when one of the videos ends, so a skeleton is played only if the videos are long enough *together
with each other*: those that were recorded after more images than twice the shorter video, and one
more if the videos differ, never come (`replay_record`).

A `VideoFormat` stands for the writer and the reader of videos, which are OpenCV's: the compression
may change an image, but as many are read back as were written. The recorder's count is taken not to
reach `2 ^ 32`.
-/

universe u v

namespace MockBot

open TaggedRecords

/-! ### Messages -/

/-- The two cameras, each with a video. -/
inductive Camera
  | forward
  | down
  deriving DecidableEq

/-- `sizeof(SkeletonMsg)`: the user, and position and certainty of fifteen bones. -/
def skeletonSize : ℕ := 1 + 15 * 24 + 15 * 4

/-- `sizeof(uint32_t)`: the bytes of the number in front of a skeleton. -/
def tagSize : ℕ := 4

/-- `SkeletonMsg`, as it is in memory. -/
abbrev SkeletonMsg := Item skeletonSize

/-- What the recorder is subscribed to. -/
inductive Event (F : Type u)
  | image (camera : Camera) (img : F)
  | skeleton (msg : SkeletonMsg)

variable {F : Type u}

/-! ### The recorder -/

/-- `MockBotRecorder`: what has been written to the videos and to the file of the skeletons. -/
structure Recorder (F : Type u) where
  /-- The images written to the video of a camera. -/
  writer : Camera → List F
  /-- The bytes of the file of the skeletons. -/
  skeletonWriter : List UInt8
  /-- The images of both cameras so far, from a value that is not initialised. -/
  frameCount : ℕ

namespace Recorder

/-- A recorder. `frame_count` is whatever was in its memory. -/
def new (frameCount : ℕ) : Recorder F := ⟨fun _ ↦ [], [], frameCount⟩

def handleImage (r : Recorder F) (camera : Camera) (img : F) : Recorder F :=
  { r with
    writer := Function.update r.writer camera (r.writer camera ++ [img])
    frameCount := (r.frameCount + 1) % 2 ^ 32 }

def handleSkeleton (r : Recorder F) (msg : SkeletonMsg) : Recorder F :=
  { r with skeletonWriter := r.skeletonWriter ++ ((tagItem tagSize r.frameCount).1 ++ msg.1) }

def handle (r : Recorder F) : Event F → Recorder F
  | .image camera img => r.handleImage camera img
  | .skeleton msg => r.handleSkeleton msg

theorem handleImage_writer (r : Recorder F) (camera : Camera) (img : F) :
    (r.handleImage camera img).writer =
      Function.update r.writer camera (r.writer camera ++ [img]) := rfl

end Recorder

/-- A recording. -/
def record (frameCount : ℕ) (es : List (Event F)) : Recorder F :=
  es.foldl Recorder.handle (Recorder.new frameCount)

/-! ### The player -/

/-- `MockBotPlayer`, what is left of its files, and what it has published. -/
structure Player (F : Type u) where
  /-- What is left of the video of a camera. -/
  reader : Camera → List F
  /-- What is left of the file of the skeletons. -/
  skeletonReader : List UInt8
  /-- The images that have been shown. -/
  frameCount : ℕ
  /-- The number in front of the next skeleton. -/
  nextSkeleton : ℕ
  /-- One of the videos has ended. -/
  done : Bool
  /-- The images that were published. -/
  images : Camera → List F
  /-- The skeletons that were published. -/
  skeletons : List SkeletonMsg

def int32Max : ℕ := 2 ^ 31 - 1

namespace Player

/-- A player. It reads the first number of the file, where bytes that are missing are zero. -/
def new (videos : Camera → List F) (file : List UInt8) : Player F where
  reader := videos
  skeletonReader := file.drop tagSize
  frameCount := 0
  nextSkeleton := ofLittleEndian (file.take tagSize)
  done := false
  images _ := []
  skeletons := []

def publishFrame (p : Player F) (camera : Camera) : Player F :=
  match p.reader camera with
  | [] => { p with done := true }
  | frame :: frames =>
    { p with
      reader := Function.update p.reader camera frames
      images := Function.update p.images camera (p.images camera ++ [frame])
      frameCount := (p.frameCount + 1) % 2 ^ 32 }

/-- The body of the loop in `publish_skeletons`. -/
def skeletonRound (p : Player F) : Player F ⊕ Player F :=
  if p.nextSkeleton ≤ p.frameCount then
    match fread skeletonSize p.skeletonReader with
    | (some msg, file) =>
      match fread tagSize file with
      | (some tag, file) =>
        .inl { p with
          skeletons := p.skeletons ++ [msg]
          skeletonReader := file
          nextSkeleton := ofLittleEndian tag.1 }
      | (none, file) =>
        .inr { p with
          skeletons := p.skeletons ++ [msg]
          skeletonReader := file
          nextSkeleton := int32Max }
    | (none, file) => .inr { p with skeletonReader := file, nextSkeleton := int32Max }
  else .inr p

/-- `publish_skeletons`. A round takes a byte at least. -/
def publishSkeletons (p : Player F) : Option (Player F) :=
  BoundedLoop.run skeletonRound (p.skeletonReader.length + 1) p

def tick (p : Player F) : Option (Player F) :=
  if p.done then some p else ((p.publishFrame .forward).publishFrame .down).publishSkeletons

def ticks : ℕ → Player F → Option (Player F)
  | 0, p => some p
  | n + 1, p => (ticks n p).bind tick

end Player

/-- The images that `cv::VideoCapture` reads of those that `cv::VideoWriter` has written. -/
structure VideoFormat (F : Type u) (G : Type v) where
  /-- What is read of the images that were written, whatever compression makes of them. -/
  readBack : List F → List G
  /-- There are as many. -/
  length_readBack (imgs : List F) : (readBack imgs).length = imgs.length

/-! ### What is recorded -/

/-- How many images are among some events. -/
def imageCount : List (Event F) → ℕ
  | [] => 0
  | .image _ _ :: es => imageCount es + 1
  | .skeleton _ :: es => imageCount es

/-- The images of a camera. -/
def imagesOf (camera : Camera) : List (Event F) → List F
  | [] => []
  | .image camera' img :: es =>
    if camera' = camera then img :: imagesOf camera es else imagesOf camera es
  | .skeleton _ :: es => imagesOf camera es

/-- The skeletons, each with the count of images before it. -/
def stamped : ℕ → List (Event F) → List (ℕ × SkeletonMsg)
  | _, [] => []
  | count, .image _ _ :: es => stamped (count + 1) es
  | count, .skeleton msg :: es => (count, msg) :: stamped count es

theorem length_imagesOf (es : List (Event F)) :
    (imagesOf .forward es).length + (imagesOf .down es).length = imageCount es := by
  induction es with
  | nil => rfl
  | cons e es ih =>
    rcases e with ⟨camera, img⟩ | msg
    · cases camera <;> simp [imagesOf, imageCount, ← ih] <;> omega
    · exact ih

/-- The counts lie between the first one and the last one, and they do not fall. -/
theorem stamped_bounds {count : ℕ} {es : List (Event F)} {r : ℕ × SkeletonMsg}
    (hr : r ∈ stamped count es) : count ≤ r.1 ∧ r.1 ≤ count + imageCount es := by
  induction es generalizing count with
  | nil => exact absurd hr List.not_mem_nil
  | cons e es ih =>
    rcases e with ⟨camera, img⟩ | msg
    · have hbounds := ih hr
      rw [imageCount]
      omega
    · rcases List.mem_cons.1 hr with rfl | hmem
      · exact ⟨Nat.le_refl _, Nat.le_add_right _ _⟩
      · exact ih hmem

theorem pairwise_stamped (count : ℕ) (es : List (Event F)) :
    (stamped count es).Pairwise fun r r' ↦ r.1 ≤ r'.1 := by
  induction es generalizing count with
  | nil => exact List.Pairwise.nil
  | cons e es ih =>
    rcases e with ⟨camera, img⟩ | msg
    · exact ih _
    · exact List.pairwise_cons.2 ⟨fun r hr ↦ (stamped_bounds hr).1, ih _⟩

/-- **What a recorder writes**, as long as its count does not overflow. -/
theorem foldl_handle {r : Recorder F} {es : List (Event F)}
    (h : r.frameCount + imageCount es < 2 ^ 32) :
    (es.foldl Recorder.handle r).skeletonWriter =
        r.skeletonWriter ++ encode tagSize (stamped r.frameCount es) ∧
      ∀ camera, (es.foldl Recorder.handle r).writer camera =
        r.writer camera ++ imagesOf camera es := by
  induction es generalizing r with
  | nil => exact ⟨(List.append_nil _).symm, fun _ ↦ (List.append_nil _).symm⟩
  | cons e es ih =>
    rcases e with ⟨camera, img⟩ | msg
    · have hcount : (r.handleImage camera img).frameCount = r.frameCount + 1 := by
        refine Nat.mod_eq_of_lt ?_
        rw [imageCount] at h
        omega
      obtain ⟨hfile, hvideo⟩ := ih (r := r.handleImage camera img) (by
        rw [hcount]
        rw [imageCount] at h
        omega)
      refine ⟨?_, fun camera' ↦ ?_⟩
      · rw [hcount] at hfile
        exact hfile
      · refine (hvideo camera').trans ?_
        rw [Recorder.handleImage_writer, imagesOf]
        split_ifs with hcamera
        · rw [hcamera, Function.update_self, List.append_assoc, List.singleton_append]
        · rw [Function.update_of_ne (Ne.symm hcamera)]
    · obtain ⟨hfile, hvideo⟩ := ih (r := r.handleSkeleton msg) h
      refine ⟨?_, hvideo⟩
      refine hfile.trans ?_
      rw [Recorder.handleSkeleton, List.append_assoc]
      rfl

/-! ### Publishing skeletons -/

/-- The skeletons whose number has been reached are published, the others are still before the
player. -/
def Released (p : Player F) (rs : List (ℕ × SkeletonMsg)) (p' : Player F) : Prop :=
  ∃ next file, p' = { p with
      nextSkeleton := next
      skeletonReader := file
      skeletons := p.skeletons ++ (rs.takeWhile fun r ↦ r.1 ≤ p.frameCount).map Prod.snd } ∧
    Pending tagSize skeletonSize next file (rs.dropWhile fun r ↦ r.1 ≤ p.frameCount)

variable {p : Player F} {rs : List (ℕ × SkeletonMsg)}

/-- The number of the next skeleton has not been reached. -/
theorem released_of_lt (h : Pending tagSize skeletonSize p.nextSkeleton p.skeletonReader rs)
    (hclock : ¬ p.nextSkeleton ≤ p.frameCount) : Released p rs p := by
  obtain ⟨htake, hdrop⟩ := takeWhile_eq_nil_of_head?
    (p := fun r : ℕ × SkeletonMsg ↦ decide (r.1 ≤ p.frameCount)) (l := rs) (by
      intro r hr
      rwa [decide_eq_true_iff, h.head?_eq r hr])
  refine ⟨p.nextSkeleton, p.skeletonReader, ?_, ?_⟩
  · rw [htake, List.map_nil, List.append_nil]
  · rwa [hdrop]

theorem exists_run_skeletonRound
    (h : Pending tagSize skeletonSize p.nextSkeleton p.skeletonReader rs) {fuel : ℕ}
    (hfuel : rs.length < fuel) :
    ∃ p', BoundedLoop.run Player.skeletonRound fuel p = some p' ∧ Released p rs p' := by
  induction rs generalizing p fuel with
  | nil =>
    obtain ⟨fuel, rfl⟩ : ∃ k, fuel = k + 1 := ⟨fuel - 1, by omega⟩
    by_cases hclock : p.nextSkeleton ≤ p.frameCount
    · have hround : p.skeletonRound = .inr { p with
          skeletonReader := []
          nextSkeleton := int32Max } := by
        rw [Player.skeletonRound, if_pos hclock, fread_of_lt h.length_lt]
      refine ⟨_, BoundedLoop.run_succ_of_inr hround fuel, int32Max, [], ?_, .stop (by decide)⟩
      rw [List.takeWhile_nil, List.map_nil, List.append_nil]
    · have hround : p.skeletonRound = .inr p := if_neg hclock
      exact ⟨p, BoundedLoop.run_succ_of_inr hround fuel, released_of_lt h hclock⟩
  | cons r rs ih =>
    obtain ⟨fuel, rfl⟩ : ∃ k, fuel = k + 1 := ⟨fuel - 1, by omega⟩
    by_cases hclock : p.nextSkeleton ≤ p.frameCount
    · generalize hnext : p.nextSkeleton = next at h
      generalize hfile : p.skeletonReader = file at h
      have htake : (((next, r.2) :: rs).takeWhile fun r ↦ r.1 ≤ p.frameCount) =
          (next, r.2) :: rs.takeWhile fun r ↦ r.1 ≤ p.frameCount :=
        List.takeWhile_cons_of_pos (decide_eq_true (hnext ▸ hclock))
      have hdrop : (((next, r.2) :: rs).dropWhile fun r ↦ r.1 ≤ p.frameCount) =
          rs.dropWhile fun r ↦ r.1 ≤ p.frameCount :=
        List.dropWhile_cons_of_pos (decide_eq_true (hnext ▸ hclock))
      rcases h with _ | @⟨_, payload, file, hshort⟩ | @⟨_, payload, item, file, _, hrest⟩
      · have hround : p.skeletonRound = .inr { p with
            skeletons := p.skeletons ++ [payload]
            skeletonReader := []
            nextSkeleton := int32Max } := by
          rw [Player.skeletonRound, if_pos hclock, hfile, fread_append]
          dsimp only
          rw [fread_of_lt hshort]
        refine ⟨_, BoundedLoop.run_succ_of_inr hround fuel, int32Max, [], ?_, ?_⟩
        · rw [htake]
          rfl
        · rw [hdrop]
          exact .stop (by decide)
      · have hround : p.skeletonRound = .inl { p with
            skeletons := p.skeletons ++ [payload]
            skeletonReader := file
            nextSkeleton := ofLittleEndian item.1 } := by
          rw [Player.skeletonRound, if_pos hclock, hfile, fread_append]
          dsimp only
          rw [fread_append]
        obtain ⟨p', hrun, next', file', rfl, hpending⟩ := ih
          (p := { p with
            skeletons := p.skeletons ++ [payload]
            skeletonReader := file
            nextSkeleton := ofLittleEndian item.1 }) hrest (Nat.lt_of_succ_lt_succ hfuel)
        refine ⟨_, (BoundedLoop.run_succ_of_inl hround fuel).trans hrun, next', file', ?_, ?_⟩
        · rw [htake, List.map_cons, List.append_cons p.skeletons payload (List.map Prod.snd _)]
        · rwa [hdrop]
    · have hround : p.skeletonRound = .inr p := if_neg hclock
      exact ⟨p, BoundedLoop.run_succ_of_inr hround fuel, released_of_lt h hclock⟩

/-- **One call** takes the skeletons up to the first one with a later number. -/
theorem exists_publishSkeletons
    (h : Pending tagSize skeletonSize p.nextSkeleton p.skeletonReader rs) :
    ∃ p', p.publishSkeletons = some p' ∧ Released p rs p' := by
  refine exists_run_skeletonRound h (Nat.lt_succ_of_le (h.length_le ?_))
  decide

/-! ### Playing -/

/-- In how many of the first ticks a player reads images: the tick in which a video has none left is
the last one. -/
def rounds (videos : Camera → List F) (n : ℕ) : ℕ :=
  min n (min (videos .forward).length (videos .down).length + 1)

/-- How many images a player has shown after some ticks. -/
def shown (videos : Camera → List F) (n : ℕ) : ℕ :=
  min (rounds videos n) (videos .forward).length + min (rounds videos n) (videos .down).length

/-- The numbers below which skeletons have been published. -/
def due (videos : Camera → List F) : ℕ → ℕ
  | 0 => 0
  | n + 1 => shown videos (n + 1) + 1

/-- **A player after some ticks.** -/
structure Played (videos : Camera → List F) (rs : List (ℕ × SkeletonMsg)) (n : ℕ)
    (p : Player F) : Prop where
  /-- It has shown a beginning of each video. -/
  images : ∀ camera, p.images camera = (videos camera).take (rounds videos n)
  /-- What is left is the rest. -/
  reader : ∀ camera, p.reader camera = (videos camera).drop (rounds videos n)
  /-- It has counted what it has shown. -/
  frameCount : p.frameCount = shown videos n
  /-- It is over when a tick has found one of the videos at its end. -/
  done : p.done = true ↔ min (videos .forward).length (videos .down).length < n
  /-- It has published the skeletons that are due. -/
  skeletons : p.skeletons = (rs.takeWhile fun r ↦ r.1 < due videos n).map Prod.snd
  /-- The other ones are still before it. -/
  pending : Pending tagSize skeletonSize p.nextSkeleton p.skeletonReader
    (rs.dropWhile fun r ↦ r.1 < due videos n)

/-- **One image**, or none if the video has ended. -/
theorem publishFrame_eq {camera : Camera} {video : List F} {k : ℕ}
    (himages : p.images camera = video.take k) (hreader : p.reader camera = video.drop k)
    (hcount : k < video.length → p.frameCount + 1 < 2 ^ 32) : p.publishFrame camera = { p with
      reader := Function.update p.reader camera (video.drop (k + 1))
      images := Function.update p.images camera (video.take (k + 1))
      frameCount := p.frameCount + if k < video.length then 1 else 0
      done := p.done || decide (video.length ≤ k) } := by
  rw [Player.publishFrame]
  split
  · rename_i hnil
    have hle : video.length ≤ k := List.drop_eq_nil_iff.1 (hreader.symm.trans hnil)
    have hdrop : video.drop (k + 1) = p.reader camera := by
      rw [hnil, List.drop_eq_nil_iff]
      omega
    have htake : video.take (k + 1) = p.images camera := by
      rw [himages, List.take_of_length_le hle, List.take_of_length_le (by omega)]
    rw [hdrop, htake, Function.update_eq_self, Function.update_eq_self, if_neg (by omega),
      decide_eq_true hle, Bool.or_true]
    rfl
  · rename_i frame frames hcons
    have hdrop := hreader.symm.trans hcons
    have hlt : k < video.length := by
      by_contra hge
      rw [List.drop_eq_nil_iff.2 (Nat.le_of_not_lt hge)] at hdrop
      exact absurd hdrop nofun
    rw [List.drop_eq_getElem_cons hlt] at hdrop
    obtain ⟨hframe, hframes⟩ := List.cons.inj hdrop
    rw [if_pos hlt, decide_eq_false (Nat.not_le.2 hlt), Bool.or_false, ← hframes, ← hframe,
      himages, List.take_append_getElem hlt, Nat.mod_eq_of_lt (hcount hlt)]

/-- The numbers below which skeletons are published only rise. -/
theorem due_le_succ (videos : Camera → List F) (n : ℕ) : due videos n ≤ due videos (n + 1) := by
  rcases n with - | n
  · exact Nat.zero_le _
  · rw [due, due, shown, shown, rounds, rounds]
    omega

theorem not_done_of_played {videos : Camera → List F} {n : ℕ} (h : Played videos rs n p)
    (hdone : p.done = false) : n ≤ min (videos .forward).length (videos .down).length := by
  by_contra hlt
  exact Bool.false_ne_true (hdone.symm.trans (h.done.2 (Nat.lt_of_not_le hlt)))

theorem rounds_of_le {videos : Camera → List F} {n : ℕ}
    (h : n ≤ min (videos .forward).length (videos .down).length) :
    rounds videos n = n ∧ rounds videos (n + 1) = n + 1 := by
  rw [rounds, rounds]
  omega

/-- The images of a tick. -/
theorem Played.publishFrames {videos : Camera → List F} {n : ℕ} (h : Played videos rs n p)
    (hdone : p.done = false)
    (hcount : (videos .forward).length + (videos .down).length < 2 ^ 32) {p' : Player F}
    (hp' : (p.publishFrame .forward).publishFrame .down = p') :
    (∀ camera, p'.images camera = (videos camera).take (n + 1)) ∧
      (∀ camera, p'.reader camera = (videos camera).drop (n + 1)) ∧
      p'.frameCount = shown videos (n + 1) ∧
      (p'.done = true ↔ min (videos .forward).length (videos .down).length < n + 1) ∧
      p'.skeletons = p.skeletons ∧ p'.nextSkeleton = p.nextSkeleton ∧
      p'.skeletonReader = p.skeletonReader := by
  have hn := not_done_of_played h hdone
  obtain ⟨hrounds, hrounds'⟩ := rounds_of_le hn
  have himages := h.images
  have hreader := h.reader
  have hframeCount := h.frameCount
  rw [shown, hrounds] at hframeCount
  simp only [hrounds] at himages hreader
  have hforward := publishFrame_eq (himages .forward) (hreader .forward) (by omega)
  have himages' : (p.publishFrame .forward).images .down = (videos .down).take n := by
    rw [hforward]
    exact himages .down
  have hreader' : (p.publishFrame .forward).reader .down = (videos .down).drop n := by
    rw [hforward]
    exact hreader .down
  have hdown := hp'.symm.trans (publishFrame_eq himages' hreader' (by
    rw [hforward]
    dsimp only
    split_ifs <;> omega))
  rw [hforward] at hdown
  subst hdown
  refine ⟨?_, ?_, ?_, ?_, rfl, rfl, rfl⟩
  · rintro (_ | _) <;> rfl
  · rintro (_ | _) <;> rfl
  · dsimp only
    rw [shown, hrounds']
    split_ifs <;> omega
  · dsimp only
    rw [hdone, Bool.false_or, Bool.or_eq_true, decide_eq_true_iff, decide_eq_true_iff]
    omega

/-- A player that is done does nothing any more. -/
theorem Played.stays {videos : Camera → List F} {n : ℕ} (h : Played videos rs n p)
    (hdone : p.done = true) : Played videos rs (n + 1) p := by
  have hn := h.done.1 hdone
  have hrounds : rounds videos (n + 1) = rounds videos n := by
    rw [rounds, rounds]
    omega
  have hshown : shown videos (n + 1) = shown videos n := by
    rw [shown, hrounds, shown]
  have hdue : due videos (n + 1) = due videos n := by
    rcases n with - | n
    · exact absurd hn (Nat.not_lt_zero _)
    · rw [due, hshown, due]
  refine ⟨?_, ?_, ?_, iff_of_true hdone (hn.trans (Nat.lt_succ_self n)), ?_, ?_⟩
  · rw [hrounds]
    exact h.images
  · rw [hrounds]
    exact h.reader
  · rw [hshown]
    exact h.frameCount
  · rw [hdue]
    exact h.skeletons
  · rw [hdue]
    exact h.pending

/-- **One tick.** -/
theorem Played.exists_tick {videos : Camera → List F} {n : ℕ} (h : Played videos rs n p)
    (hcount : (videos .forward).length + (videos .down).length < 2 ^ 32) :
    ∃ p', p.tick = some p' ∧ Played videos rs (n + 1) p' := by
  rcases hdone : p.done with _ | _
  · have hrounds := (rounds_of_le (not_done_of_played h hdone)).2
    obtain ⟨himages, hreader, hframeCount, hended, hskeletons, hnext, hfile⟩ :=
      h.publishFrames hdone hcount rfl
    have hpending := h.pending
    rw [← hnext, ← hfile] at hpending
    obtain ⟨p', hrun, hreleased⟩ := exists_publishSkeletons hpending
    refine ⟨p', ?_, ?_⟩
    · rw [Player.tick, if_neg (by rw [hdone]; exact Bool.false_ne_true)]
      exact hrun
    -- What was due before is due now.
    have hle := due_le_succ videos n
    obtain ⟨htake, hdrop⟩ := takeWhile_append_takeWhile
      (p := fun r : ℕ × SkeletonMsg ↦ decide (r.1 < due videos n))
      (q := fun r ↦ decide (r.1 < due videos (n + 1)))
      (fun r hr ↦ decide_eq_true (Nat.lt_of_lt_of_le (of_decide_eq_true hr) hle)) rs
    have hclock : ∀ r : ℕ × SkeletonMsg, decide (r.1 ≤ shown videos (n + 1)) =
        decide (r.1 < due videos (n + 1)) := fun r ↦ decide_eq_decide.2 Nat.lt_succ_iff.symm
    obtain ⟨next, file, rfl, hrest⟩ := hreleased
    simp only [hframeCount, hclock] at hrest ⊢
    refine ⟨?_, ?_, rfl, hended, ?_, ?_⟩
    · rw [hrounds]
      exact himages
    · rw [hrounds]
      exact hreader
    · rw [hskeletons, h.skeletons, ← List.map_append, htake]
    · rwa [hdrop] at hrest
  · refine ⟨p, ?_, h.stays hdone⟩
    rw [Player.tick, hdone]
    rfl

theorem played_new (videos : Camera → List F) (htags : ∀ r ∈ rs, r.1 < 2 ^ 32) :
    Played videos rs 0 (Player.new videos (encode tagSize rs)) := by
  have hrounds : rounds videos 0 = 0 := Nat.zero_min _
  obtain ⟨htake, hdrop⟩ := takeWhile_eq_nil_of_head?
    (p := fun r : ℕ × SkeletonMsg ↦ decide (r.1 < due videos 0)) (l := rs)
    fun r _ hlt ↦ Nat.not_lt_zero _ (of_decide_eq_true hlt)
  refine ⟨fun camera ↦ ?_, fun camera ↦ ?_, ?_, ?_, ?_, ?_⟩
  · rw [hrounds, List.take_zero]
    rfl
  · rw [hrounds, List.drop_zero]
    rfl
  · rw [shown, hrounds, Nat.zero_min, Nat.zero_min]
    rfl
  · exact iff_of_false Bool.false_ne_true (Nat.not_lt_zero _)
  · rw [htake]
    rfl
  · rw [hdrop]
    exact pending_take_drop (by decide) (by decide) htags

/-- **A run of the player.** -/
theorem exists_ticks {videos : Camera → List F}
    (hcount : (videos .forward).length + (videos .down).length < 2 ^ 32)
    (htags : ∀ r ∈ rs, r.1 < 2 ^ 32) (n : ℕ) :
    ∃ p, (Player.new videos (encode tagSize rs)).ticks n = some p ∧ Played videos rs n p := by
  induction n with
  | zero => exact ⟨_, rfl, played_new videos htags⟩
  | succ n ih =>
    obtain ⟨p, hrun, hplayed⟩ := ih
    obtain ⟨p', htick, hplayed'⟩ := hplayed.exists_tick hcount
    refine ⟨p', ?_, hplayed'⟩
    rw [Player.ticks, hrun]
    exact htick

section Format

variable {G : Type v} (format : VideoFormat F G) (videos : Camera → List F) (n : ℕ)

/-- How long the videos are is all that counts. -/
theorem rounds_readBack :
    rounds (fun camera ↦ format.readBack (videos camera)) n = rounds videos n := by
  rw [rounds, rounds, format.length_readBack, format.length_readBack]

theorem due_readBack : due (fun camera ↦ format.readBack (videos camera)) n = due videos n := by
  cases n with
  | zero => rfl
  | succ n =>
    rw [due, due, shown, shown, rounds_readBack, format.length_readBack, format.length_readBack]

end Format

/-- **Playing a recording back.** The player reads both videos up to the tick in which one of them
ends. A skeleton is played in the first tick at whose end as many images have been shown as the
recorder had counted when it came, and never if there is no such tick. -/
theorem replay_record {G : Type v} (format : VideoFormat F G) (frameCount : ℕ)
    (es : List (Event F)) (h : frameCount + imageCount es < 2 ^ 32) (n : ℕ) :
    ∃ p, (Player.new (fun camera ↦ format.readBack ((record frameCount es).writer camera))
        (record frameCount es).skeletonWriter).ticks n = some p ∧
      (∀ camera, p.images camera = (format.readBack (imagesOf camera es)).take
        (rounds (fun camera ↦ imagesOf camera es) n)) ∧
      p.skeletons = ((stamped frameCount es).filter
        fun r ↦ r.1 < due (fun camera ↦ imagesOf camera es) n).map Prod.snd := by
  obtain ⟨hfile, hvideos⟩ := foldl_handle (r := Recorder.new frameCount) h
  have hvideos' : (fun camera ↦ format.readBack ((record frameCount es).writer camera)) =
      fun camera ↦ format.readBack (imagesOf camera es) :=
    funext fun camera ↦ congrArg format.readBack (hvideos camera)
  have hfile' : (record frameCount es).skeletonWriter =
      encode tagSize (stamped frameCount es) := hfile
  have hlength := length_imagesOf es
  have hcount : (format.readBack (imagesOf .forward es)).length +
      (format.readBack (imagesOf .down es)).length < 2 ^ 32 := by
    rw [format.length_readBack, format.length_readBack]
    omega
  have htags : ∀ r ∈ stamped frameCount es, r.1 < 2 ^ 32 := by
    intro r hr
    have hbounds := stamped_bounds hr
    omega
  obtain ⟨p, hrun, hplayed⟩ := @exists_ticks G (stamped frameCount es)
    (fun camera ↦ format.readBack (imagesOf camera es)) hcount htags n
  rw [hvideos', hfile']
  refine ⟨p, hrun, fun camera ↦ ?_, ?_⟩
  · rw [hplayed.images, rounds_readBack format fun camera ↦ imagesOf camera es]
  · rw [hplayed.skeletons, due_readBack format fun camera ↦ imagesOf camera es, takeWhile_eq_filter]
    refine (pairwise_stamped frameCount es).imp fun hle hlt ↦ decide_eq_true ?_
    exact Nat.lt_of_le_of_lt hle (of_decide_eq_true hlt)

/-- A format that keeps the images. The skeleton comes after two images of one camera, and the other
one has none. -/
theorem replay_record_oneCamera :
    ∃ p, (Player.new (record 0 [Event.image Camera.forward 1, Event.image Camera.forward 2,
        Event.skeleton ⟨List.replicate skeletonSize 0, List.length_replicate⟩]).writer
      (record 0 [Event.image Camera.forward 1, Event.image Camera.forward 2,
        Event.skeleton
          ⟨List.replicate skeletonSize 0, List.length_replicate⟩]).skeletonWriter).ticks 9 =
        some p ∧
      p.images .forward = [1] ∧ p.skeletons = [] := by
  obtain ⟨p, hrun, himages, hskeletons⟩ := replay_record ⟨id, fun _ ↦ rfl⟩ 0
    [Event.image Camera.forward 1, Event.image Camera.forward 2,
      Event.skeleton ⟨List.replicate skeletonSize 0, List.length_replicate⟩] (by decide) 9
  exact ⟨p, hrun, himages .forward, hskeletons⟩

end MockBot
