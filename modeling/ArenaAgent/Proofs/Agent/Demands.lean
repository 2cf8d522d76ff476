import ArenaAgent.Proofs.Arena.Regions
import ArenaAgent.Proofs.Binary64.Lawful

/-!
What is demanded of a configuration, one thing after the other. A configuration that meets all
demands is accepted; any other is refused for the first demand that it does not meet
(`check_outcome`).
-/
namespace ArenaAgent

inductive Demand where
  /-- A finite value above zero. -/
  | positive (parameter : Parameter)
  /-- A finite value from zero on. -/
  | nonNegative (parameter : Parameter)
  /-- A region left over in the arena when this margin is taken off every side. -/
  | room (margin : Parameter)
  | stopsInside

/-- The demands in the order in which they are made. -/
def Demand.all : List Demand :=
  [.positive .arenaWidth, .positive .arenaHeight, .positive .runSpeed, .positive .senseRadius,
    .positive .fleeRadius, .positive .arrivalRadius, .nonNegative .fleeMargin,
    .nonNegative .wanderMargin, .room .fleeMargin, .room .wanderMargin, .stopsInside]

namespace Defect

variable {α : Type}

/-- What a defect is about. -/
def subject : Defect α → String
  | .notPositive p _ | .negative p _ | .noRoom p _ => p.name
  | .stopOutside index _ => "patrol stop " ++ toString index

theorem starts_append {start s : String} (h : ∃ rest, s = start ++ rest) (more : String) :
    ∃ rest, s ++ more = start ++ rest := by
  obtain ⟨rest, rfl⟩ := h
  exact ⟨rest ++ more, String.append_assoc ..⟩

/-- The sentence about a defect starts with what it is about. -/
theorem message_starts (number : α → String) (x : Defect α) :
    ∃ rest, x.message number = x.subject ++ rest := by
  cases x with
  | notPositive p value | negative p value => exact starts_append ⟨_, rfl⟩ (number value)
  | noRoom p value => exact starts_append (starts_append ⟨_, rfl⟩ (number value)) _
  | stopOutside index stop =>
    refine starts_append (starts_append (starts_append (starts_append ?_ (number stop.x)) ", ")
      (number stop.y)) _
    exact ⟨" at (", rfl⟩

end Defect

namespace Config

variable {α : Type} [Scalar α]

def Meets (c : Config α) : Demand → Prop
  | .positive p => Scalar.isFinite (c.value p) = true ∧ 0.0 < c.value p
  | .nonNegative p => Scalar.isFinite (c.value p) = true ∧ 0.0 ≤ c.value p
  | .room margin => (c.arena.inset (c.value margin)).Ordered
  | .stopsInside => ∀ stop ∈ c.stops, stop ∈ c.arena

/-- The defect of a configuration that does not meet a demand. Of all stops outside the arena
it is the first. -/
def DefectAt (c : Config α) : Demand → Defect α → Prop
  | .positive p, x => x = .notPositive p (c.value p)
  | .nonNegative p, x => x = .negative p (c.value p)
  | .room margin, x => x = .noRoom margin (c.value margin)
  | .stopsInside, x => ∃ index stop, x = .stopOutside index stop ∧ c.stops[index]? = some stop ∧
      stop ∉ c.arena ∧ ∀ earlier ∈ c.stops.take index, earlier ∈ c.arena

/-- The defect that the check of one demand finds. -/
def defectAt? (c : Config α) : Demand → Option (Defect α)
  | .positive p => c.notPositive? p
  | .nonNegative p => c.negative? p
  | .room margin => c.noRoom? (c.arena.inset (c.value margin)) margin
  | .stopsInside => stopOutside? c.arena 0 c.stops

/-- The check goes through the demands in their order. -/
theorem defect?_eq_findSome? (c : Config α) : c.defect? = Demand.all.findSome? c.defectAt? := by
  have parts : Demand.all =
      Parameter.positive.map Demand.positive ++ (Parameter.nonNegative.map Demand.nonNegative ++
        ([Demand.room .fleeMargin] ++ ([Demand.room .wanderMargin] ++ [Demand.stopsInside]))) :=
    rfl
  simp only [parts, List.findSome?_append, List.findSome?_map, List.findSome?_singleton, defect?,
    Option.orElse_eq_orElse, Option.orElse_eq_or]
  rfl

theorem stopOutside?_eq_some_iff (arena : Rect α) (start : Nat) (stops : List (Point α))
    (x : Defect α) :
    stopOutside? arena start stops = some x ↔
      ∃ index stop, x = .stopOutside (start + index) stop ∧ stops[index]? = some stop ∧
        stop ∉ arena ∧ ∀ earlier ∈ stops.take index, earlier ∈ arena := by
  induction stops generalizing start with
  | nil => simp [stopOutside?]
  | cons first stops ih =>
    by_cases inside : first ∈ arena
    · rw [stopOutside?, if_pos inside, ih]
      constructor
      · rintro ⟨index, stop, same, found, outside, before⟩
        refine ⟨index + 1, stop, by rw [same, Nat.add_right_comm, Nat.add_assoc], found, outside,
          ?_⟩
        exact List.forall_mem_cons.mpr ⟨inside, before⟩
      · rintro ⟨index, stop, same, found, outside, before⟩
        cases index with
        | zero =>
          cases found
          exact absurd inside outside
        | succ index =>
          refine ⟨index, stop, by rw [same, Nat.add_right_comm, Nat.add_assoc], found, outside, ?_⟩
          exact (List.forall_mem_cons.mp before).2
    · rw [stopOutside?, if_neg inside, Option.some_inj]
      constructor
      · intro same
        exact ⟨0, first, same.symm, rfl, inside, fun _ mem => absurd mem List.not_mem_nil⟩
      · rintro ⟨index, stop, same, found, outside, before⟩
        cases index with
        | zero =>
          cases found
          exact same.symm
        | succ index => exact absurd (List.forall_mem_cons.mp before).1 inside

theorem defectAt?_eq_none_iff (c : Config α) (d : Demand) : c.defectAt? d = none ↔ c.Meets d := by
  cases d with
  | positive p => exact notPositive?_eq_none_iff c p
  | nonNegative p => exact negative?_eq_none_iff c p
  | room margin => exact noRoom?_eq_none_iff c _ margin
  | stopsInside => exact stopOutside?_eq_none_iff c.arena 0 c.stops

theorem defectAt_of_defectAt? {c : Config α} {d : Demand} {x : Defect α}
    (h : c.defectAt? d = some x) : c.DefectAt d x := by
  cases d with
  | positive | nonNegative | room =>
    exact (Option.some.inj (Option.ite_none_left_eq_some.mp h).2).symm
  | stopsInside =>
    have found := (stopOutside?_eq_some_iff c.arena 0 c.stops x).mp h
    simp only [Nat.zero_add] at found
    exact found

theorem check_eq_ok_iff_meets (c : Config α) : c.check = .ok () ↔ ∀ d ∈ Demand.all, c.Meets d := by
  rw [check_eq_ok_iff, defect?_eq_findSome?, List.findSome?_eq_none_iff]
  exact forall₂_congr fun d _ => c.defectAt?_eq_none_iff d

theorem ordered_of_check {c : Config α} (checked : c.check = .ok ()) : c.wanderRegion.Ordered :=
  c.check_eq_ok_iff_meets.mp checked (.room .wanderMargin) (by simp [Demand.all])

/-- The first demand that a configuration does not meet. -/
structure FirstUnmet (c : Config α) (d : Demand) : Prop where
  unmet : ¬ c.Meets d
  before : ∃ met rest, Demand.all = met ++ d :: rest ∧ ∀ m ∈ met, c.Meets m

theorem firstUnmet_of_check {c : Config α} {e : Refusal α} (h : c.check = .error e) :
    ∃ d x, c.FirstUnmet d ∧ c.DefectAt d x ∧ e = .defect x := by
  simp only [check] at h
  split at h
  · rename_i x found
    rw [defect?_eq_findSome?, List.findSome?_eq_some_iff] at found
    obtain ⟨met, d, rest, split, unmet, before⟩ := found
    refine ⟨d, x, ⟨fun meets => ?_, met, rest, split, fun m mem => ?_⟩,
      defectAt_of_defectAt? unmet, ?_⟩
    · cases unmet.symm.trans ((c.defectAt?_eq_none_iff d).mpr meets)
    · exact (c.defectAt?_eq_none_iff m).mp (before m mem)
    · exact (Except.error.inj h).symm
  · cases h

end Config

theorem Rect.Ordered.exists_mem {α : Type} [Scalar α] [Scalar.Lawful α] {r : Rect α}
    (h : r.Ordered) : ∃ p, p ∈ r :=
  ⟨r.min, ⟨Scalar.le_self_left h.1, h.1⟩, Scalar.le_self_left h.2, h.2⟩

/-- A configuration is accepted exactly if it meets all demands, and then there is room in its
regions, all of it inside the arena. Any other is refused for the first demand that it does not
meet, with a message that starts with what this demand is about. No point of an arena has a
coordinate that is no number. -/
theorem Config.check_outcome (c : Config Float) :
    (c.check = .ok () ↔ ∀ d ∈ Demand.all, c.Meets d) ∧
      (∀ p ∈ c.arena, p.x.isNaN = false ∧ p.y.isNaN = false) ∧
      match c.check with
      | .ok () => ∀ region ∈ [c.fleeRegion, c.wanderRegion],
          (∃ p, p ∈ region) ∧ ∀ p ∈ region, p ∈ c.arena
      | .error e => ∃ d x, c.FirstUnmet d ∧ c.DefectAt d x ∧ e = .defect x ∧
          e.code = "AGENT_INVALID_CONFIG" ∧
          ∀ number, ∃ rest,
            e.message number = "invalid agent configuration: " ++ x.subject ++ rest := by
  have numbers {a b : Float} (h : a ≤ b) : a.isNaN = false ∧ b.isNaN = false := by
    obtain ⟨ha, hb, -⟩ := Binary64.le_iff.mp h
    exact ⟨eq_false_of_ne_true fun none => Binary64.isNaN_iff.mp none ha,
      eq_false_of_ne_true fun none => Binary64.isNaN_iff.mp none hb⟩
  refine ⟨c.check_eq_ok_iff_meets,
    fun p inside => ⟨(numbers inside.1.2).1, (numbers inside.2.2).1⟩, ?_⟩
  cases checked : c.check with
  | ok =>
    have roomy := roomy_of_check checked
    intro region mem
    simp only [List.mem_cons, List.not_mem_nil, or_false] at mem
    obtain rfl | rfl := mem
    · exact ⟨roomy.flee.exists_mem, roomy.flee_sub⟩
    · exact ⟨(ordered_of_check checked).exists_mem, roomy.wander_sub⟩
  | error e =>
    obtain ⟨d, x, first, defect, rfl⟩ := firstUnmet_of_check checked
    refine ⟨d, x, first, defect, rfl, rfl, fun number => ?_⟩
    obtain ⟨rest, sentence⟩ := x.message_starts number
    exact ⟨rest, (congrArg ("invalid agent configuration: " ++ ·) sentence).trans
      (String.append_assoc ..).symm⟩

/-- Of two defects the one that is asked for first is reported. -/
example :
    ({ Config.shipped with arenaHeight := 0.0, fleeMargin := 0.0 / 0.0 } : Config Float).defect?.map
    Defect.subject = some "arena_height" := by
  decide +kernel

theorem Config.check_shipped : (shipped : Config Float).check = .ok () :=
  (check_eq_ok_iff shipped).mpr (Option.isNone_iff_eq_none.mp (by decide +kernel))

end ArenaAgent
