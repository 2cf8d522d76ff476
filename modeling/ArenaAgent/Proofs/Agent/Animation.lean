import ArenaAgent.Proofs.Agent.Aim
import ArenaAgent.Proofs.Agent.Solitude
import ArenaAgent.Proofs.Binary64.Remainder

/-!
The animation of an agent. Its frame stays on the strip for as long as the number of frames that
pass in an update is finite. After an update in which it is not, there is no frame any more, ever
(`frame_on_strip_iff`).
-/
namespace ArenaAgent.Agent

section Frames

variable {α : Type} [Scalar α]

/-- The number of frames that pass in an update. -/
def framesIn (elapsed : α) : α :=
  framesPerStrip * stripsPerSecond * passing elapsed

/-- A frame of the strip, with its fraction. -/
def OnStrip (frame : α) : Prop :=
  0.0 ≤ frame ∧ frame < framesPerStrip

instance (frame : α) : Decidable (OnStrip frame) :=
  inferInstanceAs (Decidable (_ ∧ _))

/-- The frame after updates of so much time each. -/
def frameThrough (frame : α) (times : List α) : α :=
  times.foldl (fun frame elapsed => frameAfter frame (passing elapsed)) frame

/-- Only time moves the animation on. -/
theorem frame_live {a a' : Agent α} {os : List (Operation α)} (lived : a.live os = .ok a') :
    a'.frame = frameThrough a.frame (os.filterMap Operation.elapsed?) := by
  induction os generalizing a with
  | nil =>
    cases lived
    rfl
  | cons o os ih =>
    obtain ⟨a₁, done, rest⟩ := bind_eq_ok.mp lived
    rw [ih rest]
    cases o with
    | update rival elapsed =>
      rw [frame_update done]
      rfl
    | collide | draw | clearJournal =>
      obtain ⟨score, journal, same⟩ := operate_aside done rfl
      rw [same]
      rfl

end Frames

open Binary64

/-! ## One update -/

theorem value_framesPerStrip : value framesPerStrip = 10 := by
  have ten : (framesPerStrip : Float).toModel.unpack =
      .finite .positive 5629499534213120 (-49) (by norm_num) :=
    rfl
  rw [value, ten, unpackedValue, signed, zpow_neg]
  norm_num

/-- No negative number of frames passes; it may be infinite. -/
theorem framesIn_nonneg (elapsed : Float) : 0 ≤ value (framesIn elapsed) := by
  have rate : (framesPerStrip * stripsPerSecond : Float).isFinite = true ∧
      (0.0 : Float) ≤ framesPerStrip * stripsPerSecond := by decide +kernel
  have time : IsFinite (passing elapsed) ∧ 0 ≤ value (passing elapsed) := by
    rw [passing]
    split
    · rename_i passes
      exact ⟨passes.1, (lt_iff.mp passes.2).2.2.le⟩
    · exact ⟨isFinite_zero, value_zero.ge⟩
  rw [framesIn, (value_mul rate.1 time.1).2]
  exact le_clip_rounded isFinite_zero (mul_nonneg (value_nonneg rate.2) time.2)

variable {frame : Float}

theorem OnStrip.finite (h : OnStrip frame) :
    IsFinite frame ∧ 0 ≤ value frame ∧ value frame < 10 := by
  obtain ⟨number, -, below⟩ := lt_iff.mp h.2
  have nonneg := value_nonneg h.1
  rw [value_framesPerStrip] at below
  have bound := (isFinite_iff.mp (show IsFinite framesPerStrip from rfl)).2
  rw [value_framesPerStrip, abs_of_pos (by norm_num)] at bound
  refine ⟨isFinite_iff.mpr ⟨number, ?_⟩, nonneg, below⟩
  rw [abs_of_nonneg nonneg]
  exact below.trans bound

/-- A finite number of frames leads from a frame of the strip to another one. -/
theorem OnStrip.next (h : OnStrip frame) {elapsed : Float} (finite : IsFinite (framesIn elapsed)) :
    OnStrip (frameAfter frame (passing elapsed)) := by
  obtain ⟨frameFinite, nonneg, below⟩ := h.finite
  have ten : IsFinite framesPerStrip := rfl
  have small : value frame ≤ value 10.0 := below.le.trans value_framesPerStrip.ge
  have positive : 0 < value framesPerStrip := by
    rw [value_framesPerStrip]
    norm_num
  obtain ⟨sumFinite, sumNonneg⟩ :=
    finite_add_of_small frameFinite finite nonneg small (framesIn_nonneg elapsed)
  obtain ⟨number, lower, upper⟩ := value_remainder sumFinite sumNonneg ten positive
  exact ⟨le_iff.mpr ⟨isFinite_zero.isNumber, number, value_zero.trans_le lower⟩,
    lt_iff.mpr ⟨number, ten.isNumber, upper⟩⟩

/-- An infinite number of frames, or none to start from, leads nowhere. -/
theorem not_isNumber_frameAfter {elapsed : Float}
    (h : ¬ (IsFinite frame ∧ IsFinite (framesIn elapsed))) :
    ¬ IsNumber (frameAfter frame (passing elapsed)) :=
  not_isNumber_remainder (fun finite => h (finite_of_add finite)) _

/-! ## Many updates -/

theorem OnStrip.through (h : OnStrip frame) {times : List Float}
    (finite : ∀ elapsed ∈ times, IsFinite (framesIn elapsed)) :
    OnStrip (frameThrough frame times) := by
  induction times generalizing frame with
  | nil => exact h
  | cons elapsed times ih =>
    obtain ⟨first, later⟩ := List.forall_mem_cons.mp finite
    exact ih (h.next first) later

theorem not_isNumber_frameThrough (lost : ¬ IsNumber frame) (times : List Float) :
    ¬ IsNumber (frameThrough frame times) := by
  induction times generalizing frame with
  | nil => exact lost
  | cons elapsed times ih => exact ih (not_isNumber_frameAfter fun finite => lost finite.1.isNumber)

/-- One infinite number of frames is enough to lose the frame for good. -/
theorem not_isNumber_of_infinite {times : List Float}
    (infinite : ∃ elapsed ∈ times, ¬ IsFinite (framesIn elapsed)) :
    ¬ IsNumber (frameThrough frame times) := by
  induction times generalizing frame with
  | nil =>
    obtain ⟨_, none, -⟩ := infinite
    cases none
  | cons elapsed times ih =>
    by_cases first : IsFinite (framesIn elapsed)
    · obtain ⟨later, mem, beyond⟩ := infinite
      cases List.mem_cons.mp mem with
      | inl same => exact absurd (same ▸ first) beyond
      | inr rest => exact ih ⟨later, rest, beyond⟩
    · exact not_isNumber_frameThrough (not_isNumber_frameAfter fun finite => first finite.2) times

theorem onStrip_digit {n : Nat} (h : n < 10) :
    OnStrip (OfScientific.ofScientific n false 0 : Float) := by
  have digits : ∀ n < 10, OnStrip (OfScientific.ofScientific n false 0 : Float) := by decide +kernel
  exact digits n h

/-- The frame shown is one of the ten of the strip, and the frame itself is on the strip exactly if
in no update so far an infinite number of frames passed. -/
theorem frame_on_strip_iff {spec : AgentSpec Float} {entropy : Rng} {a₀ a : Agent Float}
    {os : List (Operation Float)} (built : spec.build entropy = .ok a₀)
    (lived : a₀.live os = .ok a) :
    a.shownFrame ≤ 9 ∧
      (OnStrip a.frame ↔ ∀ elapsed ∈ os.filterMap Operation.elapsed?,
        Scalar.isFinite (framesIn elapsed) = true) := by
  obtain ⟨rng, -, first, -⟩ := AgentSpec.build_rng built
  have born : OnStrip a₀.frame := first ▸ onStrip_digit rng.digit_lt_ten
  have frame := frame_live lived
  by_cases finite : ∀ elapsed ∈ os.filterMap Operation.elapsed?, IsFinite (framesIn elapsed)
  · have stays : OnStrip a.frame := frame ▸ born.through finite
    obtain ⟨number, nonneg, below⟩ := stays.finite
    have whole : (a.shownFrame : ℚ) < 10 := (toNat_le_value number nonneg).trans_lt below
    refine ⟨Nat.le_of_lt_succ (by exact_mod_cast whole), iff_of_true stays finite⟩
  · have lost : ¬ IsNumber a.frame := by
      rw [frame]
      push Not at finite
      exact not_isNumber_of_infinite finite
    refine ⟨?_, iff_of_false (fun stays => lost stays.finite.1.isNumber) finite⟩
    exact (toNat_of_not_isNumber lost).trans_le (Nat.zero_le 9)

/-- Updates of a minute, of no time, and of nearly as much time as the frames of the
strip can count. -/
def oddTimes : List (Operation Float) :=
  [.update goneRival 60.0, .update goneRival (-1.0), .update goneRival (0.0 / 0.0),
    .update goneRival 8.0e306, .update goneRival (1.0 / 0.0)]

theorem oddTimes_on_strip :
    ∃ a₀ a, (restlessSpec []).build 0 = .ok a₀ ∧ a₀.live oddTimes = .ok a ∧ a.shownFrame ≤ 9 ∧
      OnStrip a.frame := by
  obtain ⟨a₀, a, built, lived, -⟩ :=
    exists_life (restlessSpec []) 0 oddTimes (P := fun a => a.LeftRunning .wander)
      (by decide +kernel)
  obtain ⟨shown, frame⟩ := frame_on_strip_iff built lived
  exact ⟨a₀, a, built, lived, shown, frame.mpr (by decide +kernel)⟩

/-- In a finite time infinitely many frames can pass. -/
theorem frame_off_strip :
    ∃ a₀ a, edgeSpec.build 0 = .ok a₀ ∧ a₀.live [.update goneRival 1.0e308] = .ok a ∧
      ¬ OnStrip a.frame :=
  exists_life edgeSpec 0 [.update goneRival 1.0e308] (by decide +kernel)

end ArenaAgent.Agent
