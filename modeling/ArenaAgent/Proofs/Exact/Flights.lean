import ArenaAgent.Proofs.Agent.Persistence
import ArenaAgent.Proofs.Exact.Plane

/-!
Flights over the reals. A flight in the flee region stays in it, and no coordinate of the agent
comes nearer to that of the threat, also at the edges, where the region bends the flight
(`flight_never_closes`).
-/
namespace ArenaAgent

namespace Exact

/-- A step away from `t` on one axis, cut off at the ends of a range with `x` in it. -/
theorem abs_sub_le_of_cut {x t low high part : ℝ} (nonneg : 0 ≤ part) (above : low ≤ x)
    (below : x ≤ high) : |x - t| ≤ |min (max (x + -part * (t - x)) low) high - t| := by
  have away : x + -part * (t - x) = x + part * (x - t) := by
    ring
  rw [away]
  rcases le_total t x with right | left
  · have step : x ≤ x + part * (x - t) :=
      le_add_of_nonneg_right (mul_nonneg nonneg (sub_nonneg.mpr right))
    have farther : x ≤ min (max (x + part * (x - t)) low) high :=
      le_min (le_max_of_le_left step) below
    calc
      |x - t| = x - t := abs_of_nonneg (sub_nonneg.mpr right)
      _ ≤ min (max (x + part * (x - t)) low) high - t := sub_le_sub_right farther t
      _ ≤ |min (max (x + part * (x - t)) low) high - t| := le_abs_self _
  · have step : x + part * (x - t) ≤ x :=
      add_le_of_nonpos_right (mul_nonpos_of_nonneg_of_nonpos nonneg (sub_nonpos.mpr left))
    have farther : min (max (x + part * (x - t)) low) high ≤ x :=
      min_le_of_left_le (max_le step above)
    calc
      |x - t| = -(x - t) := abs_of_nonpos (sub_nonpos.mpr left)
      _ ≤ -(min (max (x + part * (x - t)) low) high - t) := neg_le_neg (sub_le_sub_right farther t)
      _ ≤ |min (max (x + part * (x - t)) low) high - t| := neg_le_abs _

variable [Trigonometry]

theorem clamp_eq (r : Rect ℝ) (p : Point ℝ) :
    r.clamp p = ⟨min (max p.x r.min.x) r.max.x, min (max p.y r.min.y) r.max.y⟩ := by
  simp only [Rect.clamp, max_eq, min_eq]

end Exact

section

variable [Trigonometry]

namespace Point

/-- On neither axis is `q` nearer to `threat` than `p` is. -/
structure Averted (threat p q : Point ℝ) : Prop where
  x : |p.x - threat.x| ≤ |q.x - threat.x|
  y : |p.y - threat.y| ≤ |q.y - threat.y|

theorem Averted.dist_le {threat p q : Point ℝ} (h : Averted threat p q) :
    p.dist threat ≤ q.dist threat := by
  rw [dist_eq, dist_eq]
  exact Real.sqrt_le_sqrt (add_le_add (sq_le_sq.mpr h.x) (sq_le_sq.mpr h.y))

theorem coordinates_eq_of_dist {p q : Point ℝ} (h : ¬ 0 < p.dist q) :
    p.x - q.x = 0 ∧ p.y - q.y = 0 := by
  rw [dist_eq, Real.sqrt_pos, not_lt] at h
  have zero := le_antisymm h (add_nonneg (sq_nonneg _) (sq_nonneg _))
  rw [add_eq_zero_iff_of_nonneg (sq_nonneg _) (sq_nonneg _)] at zero
  exact ⟨pow_eq_zero_iff two_ne_zero |>.mp zero.1, pow_eq_zero_iff two_ne_zero |>.mp zero.2⟩

end Point

theorem Rect.averted_clamp_along {r : Rect ℝ} {p threat : Point ℝ} {part : ℝ} (inside : p ∈ r)
    (nonneg : 0 ≤ part) : Point.Averted threat p (r.clamp (p.along threat (-part))) := by
  rw [Exact.clamp_eq]
  constructor
  · exact Exact.abs_sub_le_of_cut nonneg inside.1.1 inside.1.2
  · exact Exact.abs_sub_le_of_cut nonneg inside.2.1 inside.2.2

namespace Body

/-- On top of the threat any step leads away from it. -/
theorem averted_stepFrom [Trigonometry.HalfTurns] {b : Body ℝ} {threat : Point ℝ}
    (inside : b.position ∈ b.config.fleeRegion) (forward : 0 ≤ b.stride) :
    Point.Averted threat b.position (b.stepFrom threat) := by
  by_cases apart : 0 < b.position.dist threat
  · rw [stepFrom, headingFrom, Point.polar_bearing_add_pi apart]
    exact Rect.averted_clamp_along inside (div_nonneg forward apart.le)
  · obtain ⟨x, y⟩ := Point.coordinates_eq_of_dist apart
    constructor
    · rw [x, abs_zero]
      exact abs_nonneg _
    · rw [y, abs_zero]
      exact abs_nonneg _

/-- The body `b'` is as it was at the start of a flight, as far as the flight needs it. -/
structure Fleeing (b b' : Body ℝ) : Prop where
  config : b'.config = b.config
  speed : b'.speed = b.speed
  inside : b'.position ∈ b.config.fleeRegion

theorem Fleeing.heed {b b' : Body ℝ} (h : b.Fleeing b') (beat : Beat ℝ) :
    b.Fleeing (b'.heed beat) :=
  ⟨h.config, h.speed, h.inside⟩

theorem Fleeing.fleeFrom {b b' : Body ℝ} (h : b.Fleeing b') (roomy : b.config.Roomy)
    (threat : Point ℝ) : b.Fleeing (b'.fleeFrom threat).2 := by
  refine ⟨h.config, h.speed, ?_⟩
  rw [← h.config] at roomy ⊢
  exact Rect.clamp_mem roomy.flee _

theorem Fleeing.persist {b : Body ℝ} (roomy : b.config.Roomy)
    (inside : b.position ∈ b.config.fleeRegion) (threat : Point ℝ) (beats : List (Beat ℝ)) :
    b.Fleeing (b.persist (·.fleeFrom threat) beats) := by
  refine persist_keeps ?_ ⟨rfl, rfl, inside⟩
  intro b' beat _ h
  exact (h.heed beat).fleeFrom roomy threat

/-- A flight in the flee region, tick after tick in strides that lead on, stays there and never
comes nearer to the threat, wherever the threat is. It goes on exactly while the threat is within
the flee radius. -/
theorem flight_never_closes [Trigonometry.HalfTurns] (b : Body ℝ)
    (checked : b.config.check = .ok ()) (threat : Point ℝ)
    (inside : b.position ∈ b.config.fleeRegion) (earlier : List (Beat ℝ)) (now : Beat ℝ)
    (forward : ∀ beat ∈ earlier ++ [now], 0 ≤ b.speed * beat.elapsed) :
    let before := b.persist (·.fleeFrom threat) earlier
    let (status, after) := (before.heed now).fleeFrom threat
    after.position ∈ b.config.fleeRegion ∧
      |before.position.x - threat.x| ≤ |after.position.x - threat.x| ∧
      |before.position.y - threat.y| ≤ |after.position.y - threat.y| ∧
      before.position.dist threat ≤ after.position.dist threat ∧
      status =
        if after.position.dist threat < b.config.fleeRadius * pixelsPerMeter then .running
        else .success := by
  have roomy := Config.roomy_of_check checked
  obtain ⟨positive, -⟩ :=
    (Config.defect?_eq_none_iff b.config).mp (Config.check_eq_ok_iff _ |>.mp checked)
  have radius : 0 < b.config.fleeRadius := Exact.zero_eq ▸ (positive .fleeRadius (by decide)).2
  intro before
  have flees : b.Fleeing before := Fleeing.persist roomy inside threat earlier
  have heeds : b.Fleeing (before.heed now) := flees.heed now
  have leads : 0 ≤ (before.heed now).stride :=
    stride_heed flees.speed now ▸ forward now (List.mem_append_right _ (List.mem_singleton_self _))
  have averted : Point.Averted threat before.position ((before.heed now).stepFrom threat) :=
    averted_stepFrom (b := before.heed now) (heeds.config ▸ heeds.inside) leads
  refine ⟨(heeds.fleeFrom roomy threat).inside, averted.x, averted.y, averted.dist_le,
    if_congr ?_ rfl rfl⟩
  rw [heeds.config]
  exact Point.within_iff radius _ _

end Body

end

namespace Body

noncomputable def cornered : Body ℝ :=
  .spawn .shipped ⟨50, 50⟩ (.ofSeed 0)

theorem check_cornered : cornered.config.check = .ok () := by
  rw [Config.check_eq_ok_iff, Config.defect?_eq_none_iff]
  simp only [cornered, spawn, Config.shipped, Config.fleeRegion, Config.wanderRegion, Config.arena,
    Config.shippedStops, Rect.inset, Rect.ofSize, Rect.Ordered, Rect.mem_iff, Point.origin,
    Parameter.positive, Parameter.nonNegative, List.forall_mem_cons, List.not_mem_nil, Config.value]
  norm_num
  simp [Scalar.isFinite]

/-- Cornered, with a threat in the way out, an agent keeps its distance. -/
theorem cornered_holds_out :
    let threat : Point ℝ := ⟨80, 90⟩
    let before := cornered.persist (·.fleeFrom threat) [⟨.initial, 1⟩]
    let (_, after) := (before.heed ⟨.initial, 2⟩).fleeFrom threat
    after.position ∈ cornered.config.fleeRegion ∧
      before.position.dist threat ≤ after.position.dist threat := by
  have inside : cornered.position ∈ cornered.config.fleeRegion := by
    simp only [Rect.mem_iff, cornered, spawn, Config.shipped, Config.fleeRegion, Config.arena,
      Rect.inset, Rect.ofSize, Point.origin]
    norm_num
  have forward : ∀ beat ∈ [⟨Rival.initial, 1⟩, ⟨Rival.initial, 2⟩],
      0 ≤ cornered.speed * Beat.elapsed beat := by
    simp only [List.forall_mem_cons, List.not_mem_nil, cornered, spawn, Config.speed,
      Config.shipped, pixelsPerMeter]
    norm_num
  obtain ⟨stays, -, -, no_nearer, -⟩ := flight_never_closes cornered check_cornered ⟨80, 90⟩ inside
    [⟨.initial, 1⟩] ⟨.initial, 2⟩ forward
  exact ⟨stays, no_nearer⟩

end Body

end ArenaAgent
