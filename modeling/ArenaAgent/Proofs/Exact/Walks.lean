import ArenaAgent.Proofs.Agent.Persistence
import ArenaAgent.Proofs.Exact.Plane

/-!
Walks over the reals. A walk to a goal, tick after tick, goes along the straight line and comes
nearer by every stride, until it is on the goal (`walk_is_straight`).
-/
namespace ArenaAgent

namespace Body

/-- Where a walk to `goal` leads before the arena keeps it in. -/
def reach {α : Type} [Scalar α] (b : Body α) (goal : Point α) : Point α :=
  if b.position.dist goal ≤ b.stride then goal else b.position.polar (b.headingTo goal) b.stride

theorem stepTo_eq_clamp {α : Type} [Scalar α] (b : Body α) (goal : Point α) :
    b.stepTo goal = b.config.arena.clamp (b.reach goal) :=
  rfl

section

variable [Trigonometry]

/-- The part of the way to `goal` that a walk covers in one tick. -/
theorem reach_eq_along (b : Body ℝ) (goal : Point ℝ) (forward : 0 ≤ b.stride) :
    ∃ part, 0 ≤ part ∧ part ≤ 1 ∧ b.reach goal = b.position.along goal part ∧
      (1 - part) * b.position.dist goal = max (b.position.dist goal - b.stride) 0 := by
  by_cases lands : b.position.dist goal ≤ b.stride
  · refine ⟨1, zero_le_one, le_refl 1, ?_, ?_⟩
    · rw [reach, if_pos lands, Point.along_one]
    · rw [sub_self, zero_mul, max_eq_right (sub_nonpos.mpr lands)]
  · have short : b.stride < b.position.dist goal := lt_of_not_ge lands
    have apart : 0 < b.position.dist goal := forward.trans_lt short
    refine ⟨b.stride / b.position.dist goal, div_nonneg forward apart.le,
      (div_le_one apart).mpr short.le, ?_, ?_⟩
    · rw [reach, if_neg lands, headingTo, if_pos (Exact.zero_eq ▸ apart), Point.polar_bearing apart]
    · rw [one_sub_mul, div_mul_cancel₀ _ apart.ne', max_eq_left (sub_nonneg.mpr short.le)]

theorem reach_mem_segment (b : Body ℝ) (goal : Point ℝ) (forward : 0 ≤ b.stride) :
    (b.reach goal).pair ∈ segment ℝ b.position.pair goal.pair := by
  obtain ⟨part, nonneg, le_one, along, -⟩ := b.reach_eq_along goal forward
  rw [along]
  exact Point.along_mem_segment _ _ nonneg le_one

theorem dist_reach (b : Body ℝ) (goal : Point ℝ) (forward : 0 ≤ b.stride) :
    (b.reach goal).dist goal = max (b.position.dist goal - b.stride) 0 := by
  obtain ⟨part, -, le_one, along, left⟩ := b.reach_eq_along goal forward
  rw [along, Point.dist_along _ _ le_one, left]

/-- The body `b'` is on the straight way of `b` to the goal, after so much of it. -/
structure OnWay (b : Body ℝ) (goal : Point ℝ) (walked : ℝ) (b' : Body ℝ) : Prop where
  config : b'.config = b.config
  speed : b'.speed = b.speed
  between : b'.position.pair ∈ segment ℝ b.position.pair goal.pair
  left : b'.position.dist goal = max (b.position.dist goal - walked) 0

theorem OnWay.refl (b : Body ℝ) (goal : Point ℝ) : b.OnWay goal 0 b := by
  refine ⟨rfl, rfl, left_mem_segment ℝ _ _, ?_⟩
  rw [sub_zero, max_eq_left (Point.zero_le_dist _ _)]

variable {b b' : Body ℝ} {goal : Point ℝ} {walked : ℝ}

theorem OnWay.heed (h : b.OnWay goal walked b') (beat : Beat ℝ) :
    b.OnWay goal walked (b'.heed beat) :=
  ⟨h.config, h.speed, h.between, h.left⟩

/-- On the way the arena keeps nobody from where a walk leads. -/
theorem OnWay.stepTo_eq (h : b.OnWay goal walked b') (start : b.position ∈ b.config.arena)
    (inside : goal ∈ b.config.arena) (forward : 0 ≤ b'.stride) :
    b'.stepTo goal = b'.reach goal := by
  rw [stepTo_eq_clamp, h.config]
  apply Rect.clamp_eq_of_mem
  exact Rect.mem_of_segment (Rect.mem_of_segment start inside h.between) inside
    (b'.reach_mem_segment goal forward)

theorem OnWay.walkTo (h : b.OnWay goal walked b') (start : b.position ∈ b.config.arena)
    (inside : goal ∈ b.config.arena) (forward : 0 ≤ b'.stride) (arrival : ℝ) :
    b.OnWay goal (walked + b'.stride) (b'.walkTo goal arrival).2 := by
  have position : (b'.walkTo goal arrival).2.position = b'.reach goal :=
    h.stepTo_eq start inside forward
  refine ⟨h.config, h.speed, ?_, ?_⟩
  · rw [position]
    exact (convex_segment _ _).segment_subset h.between (right_mem_segment ℝ _ _)
      (b'.reach_mem_segment goal forward)
  · rw [position, b'.dist_reach goal forward, h.left, ← max_sub_sub_right, max_assoc, zero_sub,
      max_eq_right (neg_nonpos.mpr forward), sub_sub]

theorem OnWay.persist (h : b.OnWay goal walked b') (start : b.position ∈ b.config.arena)
    (inside : goal ∈ b.config.arena) (arrival : ℝ) (beats : List (Beat ℝ))
    (forward : ∀ beat ∈ beats, 0 ≤ b.speed * beat.elapsed) :
    b.OnWay goal (walked + (beats.map fun beat => b.speed * beat.elapsed).sum)
      (b'.persist (·.walkTo goal arrival) beats) := by
  induction beats generalizing b' walked with
  | nil => rwa [List.map_nil, List.sum_nil, add_zero]
  | cons beat beats ih =>
    obtain ⟨first, rest⟩ := List.forall_mem_cons.mp forward
    have stride := stride_heed h.speed beat
    have step := (h.heed beat).walkTo start inside (stride ▸ first) arrival
    rw [stride] at step
    rw [List.map_cons, List.sum_cons, ← add_assoc]
    exact ih step rest

/-- A walk to a goal, tick after tick in strides that lead on, keeps to the straight line and comes
nearer by each stride until it is on the goal; the arena never bends it. A tick answers `success`
exactly if it ends within the arrival radius. -/
theorem walk_is_straight (b : Body ℝ) (goal : Point ℝ) (arrival : ℝ)
    (start : b.position ∈ b.config.arena) (inside : goal ∈ b.config.arena) (positive : 0 < arrival)
    (earlier : List (Beat ℝ)) (now : Beat ℝ)
    (forward : ∀ beat ∈ earlier ++ [now], 0 ≤ b.speed * beat.elapsed) :
    let last := (b.persist (·.walkTo goal arrival) earlier).heed now
    let (status, b') := last.walkTo goal arrival
    let walked := ((earlier ++ [now]).map fun beat => b.speed * beat.elapsed).sum
    b'.position.pair ∈ segment ℝ b.position.pair goal.pair ∧
      b'.position.dist goal = max (b.position.dist goal - walked) 0 ∧
      b'.position = last.reach goal ∧
      status = if b'.position.dist goal < arrival * pixelsPerMeter then .success else .running := by
  intro last
  obtain ⟨forward, nowForward⟩ := List.forall_mem_append.mp forward
  have way := (OnWay.refl b goal).persist start inside arrival earlier forward
  have stride : last.stride = b.speed * now.elapsed := stride_heed way.speed now
  have leads : 0 ≤ last.stride := stride ▸ nowForward now (List.mem_singleton_self _)
  have arrives := (way.heed now).walkTo start inside leads arrival
  refine ⟨arrives.between, arrives.left.trans ?_, (way.heed now).stepTo_eq start inside leads,
    if_congr ?_ rfl rfl⟩
  · rw [stride, List.map_append, List.sum_append, List.map_singleton, List.sum_singleton, zero_add]
  · rw [Point.within_iff positive, Point.dist_symm]

end

noncomputable def walker : Body ℝ :=
  .spawn .shipped ⟨43, 274⟩ (.ofSeed 0)

/-- At ninety pixels a second twenty-five seconds are enough for a thousand pixels. -/
theorem walker_arrives :
    let goal : Point ℝ := ⟨1118, 274⟩
    let last := (walker.persist (·.walkTo goal 1) [⟨.initial, 5⟩]).heed ⟨.initial, 20⟩
    let (status, b') := last.walkTo goal 1
    b'.position.dist goal = 0 ∧ status = .success := by
  have start : walker.position ∈ walker.config.arena := by
    simp only [Rect.mem_iff, walker, spawn, Config.arena, Config.shipped, Rect.ofSize, Point.origin]
    norm_num
  have inside : (⟨1118, 274⟩ : Point ℝ) ∈ walker.config.arena := by
    simp only [Rect.mem_iff, walker, spawn, Config.arena, Config.shipped, Rect.ofSize, Point.origin]
    norm_num
  have speed : walker.speed = 2500 / 27 := by
    simp only [walker, spawn, Config.speed, Config.shipped, pixelsPerMeter]
    norm_num
  have forward : ∀ beat ∈ [⟨Rival.initial, 5⟩, ⟨Rival.initial, 20⟩],
      0 ≤ walker.speed * Beat.elapsed beat := by
    simp only [List.forall_mem_cons, List.not_mem_nil, speed]
    norm_num
  obtain ⟨-, left, -, answer⟩ := walk_is_straight walker ⟨1118, 274⟩ 1 start inside (by norm_num)
    [⟨.initial, 5⟩] ⟨.initial, 20⟩ forward
  have away : walker.position.dist ⟨1118, 274⟩ = 1075 := by
    rw [Point.dist_eq, Real.sqrt_eq_iff_mul_self_eq_of_pos (by norm_num)]
    simp only [walker, spawn]
    norm_num
  have arrived := left.trans (max_eq_right (by simp [away, speed]; norm_num))
  refine ⟨arrived, ?_⟩
  rw [arrived, if_pos (mul_pos (by norm_num) Exact.pixelsPerMeter_pos)] at answer
  exact answer

end Body

end ArenaAgent
