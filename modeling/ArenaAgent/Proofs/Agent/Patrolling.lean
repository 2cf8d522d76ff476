import ArenaAgent.Proofs.Agent.Branches

/-!
The legs of a patrol. An agent departs for a stop when it takes it as its target. Whatever comes
between two departures, the stops follow one another in their order (`stops_in_order`).
-/
namespace ArenaAgent

variable {α : Type}

def departures (acts : List (Act α)) : List (Act α) :=
  acts.filter (·.skill.Departs)

theorem departures_append (xs ys : List (Act α)) :
    departures (xs ++ ys) = departures xs ++ departures ys :=
  List.filter_append ..

theorem departures_of_departs {x : Act α} (departs : x.skill.Departs) (xs : List (Act α)) :
    departures (x :: xs) = x :: departures xs :=
  List.filter_cons_of_pos (decide_eq_true departs)

theorem departures_of_stays {x : Act α} (stays : ¬ x.skill.Departs) (xs : List (Act α)) :
    departures (x :: xs) = departures xs :=
  List.filter_cons_of_neg (by simpa using stays)

/-- A patrol that went on with each departure so far, and never otherwise. -/
structure Patrol.Follows (p : Patrol α) (stops : List (Point α)) (past : List (Act α)) : Prop where
  route : p.stops = stops
  index : p.index = (departures past).length % stops.length
  aims : (departures past).map Act.aim? =
    (List.range (departures past).length).map fun k => stops[k % stops.length]?

variable [Scalar α]

theorem Acted.patrol {b b' : Body α} {acts : List (Act α)} (h : Acted b acts b')
    (stays : departures acts = []) : b'.patrol = b.patrol := by
  induction h with
  | nil | fault => rfl
  | @cons b b₁ b' leaf k status acts done rest ih =>
    have others := List.filter_eq_nil_iff.mp stays
    have first : ¬ k.Departs := by simpa using others _ (List.mem_cons_self ..)
    rw [departures_of_stays first] at stays
    exact (ih stays).trans ((Skill.perform_spared done).patrol first)

namespace Patrol.Follows

variable {stops : List (Point α)} {past : List (Act α)}

omit [Scalar α] in
theorem ofStops (stops : List (Point α)) : (Patrol.ofStops stops).Follows stops [] :=
  ⟨rfl, (Nat.zero_mod _).symm, rfl⟩

omit [Scalar α] in
theorem stay {p : Patrol α} (follows : p.Follows stops past) {x : Act α}
    (stays : ¬ x.skill.Departs) : p.Follows stops (past ++ [x]) := by
  have same : departures (past ++ [x]) = departures past := by
    rw [departures_append, departures_of_stays stays]
    exact List.append_nil _
  refine ⟨follows.route, ?_, ?_⟩
  · rw [same]
    exact follows.index
  · rw [same]
    exact follows.aims

omit [Scalar α] in
theorem depart {p : Patrol α} (follows : p.Follows stops past) {stop : Point α}
    (turn : p.stops[p.index]? = some stop) {x : Act α} (departs : x.skill.Departs)
    (aim : x.aim? = some stop) :
    ({ p with index := (p.index + 1) % p.stops.length } : Patrol α).Follows stops
      (past ++ [x]) := by
  have grown : departures (past ++ [x]) = departures past ++ [x] := by
    rw [departures_append, departures_of_departs departs]
    rfl
  rw [follows.route] at turn ⊢
  rw [follows.index] at turn ⊢
  refine ⟨rfl, ?_, ?_⟩
  · rw [grown, List.length_append, Nat.mod_add_mod]
    rfl
  · rw [grown, List.length_append, List.length_singleton, List.range_succ, List.map_append,
      List.map_append, follows.aims, List.map_singleton, List.map_singleton, aim, turn]

theorem aimAtNextStop {b : Body α} (follows : b.patrol.Follows stops past) (nonempty : stops ≠ [])
    (leaf : Nat) :
    ∃ aimed, Skill.aimAtNextStop.perform b = .ok (.success, aimed) ∧
      aimed.patrol.Follows stops (past ++ [⟨leaf, .aimAtNextStop, .ok (.success, aimed)⟩]) := by
  have proper : b.patrol.index < b.patrol.stops.length := by
    rw [follows.route, follows.index]
    exact Nat.mod_lt _ (List.length_pos_iff.mpr nonempty)
  have performed : Skill.aimAtNextStop.perform b = .ok (.success, { b with
      target := b.patrol.stops.get ⟨b.patrol.index, proper⟩
      patrol.index := (b.patrol.index + 1) % b.patrol.stops.length }.record
        (.patrolLeg b.patrol.index (b.patrol.stops.get ⟨b.patrol.index, proper⟩))) := by
    rw [Skill.perform, Body.aimAtNextStop, b.patrol.next?_of_proper proper]
  have turn :
      b.patrol.stops[b.patrol.index]? = some (b.patrol.stops.get ⟨b.patrol.index, proper⟩) :=
    List.getElem?_eq_getElem proper
  have departs : (Skill.aimAtNextStop : Skill α).Departs := trivial
  exact ⟨_, performed, follows.depart turn departs rfl⟩

omit [Scalar α] in
theorem aimed {p : Patrol α} (follows : p.Follows stops past) (nonempty : stops ≠ [])
    {k : Nat} {x : Act α} (departed : (departures past)[k]? = some x) :
    ∃ b, x.result = .ok (.success, b) ∧ stops[k % stops.length]? = some b.target := by
  have turn : k % stops.length < stops.length := Nat.mod_lt _ (List.length_pos_iff.mpr nonempty)
  have past : k < (departures past).length := (List.getElem?_eq_some_iff.mp departed).1
  have aims := congrArg (·[k]?) follows.aims
  simp only [List.getElem?_map, departed, List.getElem?_range past, Option.map_some,
    Option.some.injEq, List.getElem?_eq_getElem turn] at aims
  obtain ⟨b, result, target⟩ := Act.result_of_aim? aims
  refine ⟨b, result, ?_⟩
  rw [target, List.getElem?_eq_getElem turn]

/-- A patrol follows the departures of any acts. -/
theorem acted {b b' : Body α} {acts : List (Act α)} (acted : Acted b acts b')
    (follows : b.patrol.Follows stops past) (nonempty : stops ≠ []) :
    b'.patrol.Follows stops (past ++ acts) := by
  -- The past takes in one act after the other.
  induction acted generalizing past with
  | nil => rwa [List.append_nil]
  | @cons b b₁ b' leaf k status acts done rest ih =>
    rw [List.append_cons]
    apply ih
    by_cases departs : k.Departs
    · cases k with
      | aimAtNextStop =>
        obtain ⟨aimed, aims, later⟩ := follows.aimAtNextStop nonempty leaf
        cases aims.symm.trans done
        exact later
      | _ => cases departs
    · rw [(Skill.perform_spared done).patrol departs]
      exact follows.stay departs
  | @fault b leaf k fault failed =>
    apply follows.stay
    intro departs
    cases k with
    | aimAtNextStop => cases failed
    | _ => cases departs

end Patrol.Follows

namespace Mode

open ArenaAgent.Tree

variable (m : Mode) (c : Config α)

omit [Scalar α] in
theorem departs_leaf_iff (i : Nat) : (∃ k ∈ (m.tree c).leaves[i]?, k.Departs) ↔ i = 7 := by
  rw [leaves_tree]
  obtain _ | _ | _ | _ | _ | _ | _ | _ | _ | _ | _ | i := i <;> simp [Skill.Departs]

theorem departures_eq_nil {ns : List Nat} (other : 7 ∉ ns) (b : Body α) :
    departures (b.acts (m.tree c).leaves ns) = [] := by
  rw [departures, List.filter_eq_nil_iff]
  intro x mem departs
  obtain ⟨visited, found⟩ := leaf_of_mem_acts mem
  have leaf := (m.departs_leaf_iff c x.leaf).mp ⟨x.skill, found, of_decide_eq_true departs⟩
  exact other (leaf ▸ visited)

theorem departures_engagement (b : Body α) : departures (m.engagementActs c b) = [] := by
  apply departures_eq_nil
  intro visited
  have early :=
    (ascending_visits_tick (m.engagementTree c) 0 (.ok b : Except (Breakdown α) _)).2 7 visited
  exact Nat.lt_irrefl 7 early.2

/-- The legs depart once, unless the agent is on its way to a stop. -/
theorem departures_legs {later : List Nat} (late : ∀ n ∈ later, 8 ≤ n) (b : Body α) :
    (departures (b.acts (m.tree c).leaves (m.firstStep :: later))).length =
      if m = .patrol then 0 else 1 := by
  have others : 7 ∉ later := fun mem => absurd (late 7 mem) (by decide)
  by_cases going : m = .patrol
  · have none : 7 ∉ m.firstStep :: later := by
      rw [firstStep, if_pos going, List.mem_cons]
      exact not_or_intro (by decide) others
    rw [m.departures_eq_nil c none, if_pos going]
    rfl
  · have first : (m.tree c).leaves[m.firstStep]? = some .aimAtNextStop := by
      rw [firstStep, if_neg going, leaves_tree]
      rfl
    have departs : (Skill.aimAtNextStop : Skill α).Departs := trivial
    rw [acts_of_perform first rfl, departures_of_departs departs,
      m.departures_eq_nil c others, if_neg going]
    rfl

end Mode

namespace Agent

section InMode

variable {c : Config α} {m : Mode} {a : Agent α} (h : a.InMode c m) (rival : Rival α) (elapsed : α)

include h

theorem InMode.departures_update :
    (departures (a.acts rival elapsed)).length =
      if a.engagementAnswer rival elapsed = some .failure ∧ ¬ a.LeftRunning .patrol
      then 1 else 0 := by
  have going := h.leftRunning_iff .patrol
  by_cases failed : a.engagementAnswer rival elapsed = some .failure
  · obtain ⟨b, later, late, acts⟩ := h.acts_of_failed rival elapsed failed
    have legs := m.departures_legs c late b
    rw [acts, departures_append, m.departures_engagement, List.nil_append, legs]
    by_cases patrolling : m = .patrol <;> simp [failed, going, patrolling]
  · rw [h.acts_of_engaged rival elapsed failed, m.departures_engagement,
      if_neg fun both => failed both.1]
    rfl

/-- An engagement that does not fail ends the leg that it interrupts. -/
theorem InMode.interrupted {a' : Agent α}
    (engaged : a.engagementAnswer rival elapsed ≠ some .failure)
    (updated : a.update rival elapsed = .ok a') : ¬ a'.LeftRunning .patrol := by
  obtain ⟨-, idle⟩ := h.update_of_engaged rival elapsed engaged updated
  obtain ⟨mv, -, moved⟩ := h.update_ok updated
  rw [moved.mode.leftRunning_iff]
  intro going
  have tree : a'.mind.tree = Mode.patrol.tree c := going ▸ moved.mode.tree
  rw [tree] at idle
  have leg : (Pointers.leg Skill.aimAtNextStop c (some 1)).Idle := idle _ (List.mem_cons_self ..)
  cases leg _ (List.mem_cons_self ..)

end InMode

theorem patrol_build {spec : AgentSpec α} {entropy : Rng} {a : Agent α}
    (h : spec.build entropy = .ok a) : a.body.patrol = .ofStops spec.config.stops := by
  obtain ⟨position, rng, frame, made⟩ := AgentSpec.build_made h
  rw [made]
  rfl

theorem follows_history {spec : AgentSpec α} {entropy : Rng} {a₀ : Agent α}
    (built : spec.build entropy = .ok a₀) (nonempty : spec.config.stops ≠ [])
    (os : List (Operation α)) :
    match a₀.live os with
    | .ok a => a.body.patrol.Follows spec.config.stops (a₀.history os)
    | .error e => e.body.patrol.Follows spec.config.stops (a₀.history os) := by
  have born : a₀.body.patrol.Follows spec.config.stops [] := by
    rw [patrol_build built]
    exact .ofStops _
  refine history_of_kept (P := fun past a => a.body.patrol.Follows spec.config.stops past)
    (Q := fun past e => e.body.patrol.Follows spec.config.stops past) ?_ ?_ born os
  · intro past a a' o follows done
    obtain ⟨b, b', before, acted, after⟩ := acted_operate done
    rw [after.patrol]
    rw [← before.patrol] at follows
    exact follows.acted acted nonempty
  · intro past a o e follows broken
    obtain ⟨b, before, acted⟩ := acted_operate_of_error broken
    rw [← before.patrol] at follows
    exact follows.acted acted nonempty

/-- The stops follow one another in their order, whatever comes between them. The update in which an
agent departs for the next one is an update with an engagement that fails and without a leg that
goes on from the update before; a leg that was interrupted does not go on. -/
theorem stops_in_order {spec : AgentSpec α} {entropy : Rng} {a₀ : Agent α}
    (built : spec.build entropy = .ok a₀) (nonempty : spec.config.stops ≠ [])
    (os : List (Operation α)) :
    let n := spec.config.stops.length
    let past := departures (a₀.history os)
    (∀ k x, past[k]? = some x →
      ∃ b, x.result = .ok (.success, b) ∧ spec.config.stops[k % n]? = some b.target) ∧
      match a₀.live os with
      | .error e => e.body.patrol.index = past.length % n
      | .ok a =>
        a.body.patrol.index = past.length % n ∧ a.body.patrol.index < n ∧
          ∀ rival elapsed,
            (departures (a.acts rival elapsed)).length =
                (if a.engagementAnswer rival elapsed = some .failure ∧
                  ¬ a.LeftRunning .patrol then 1 else 0) ∧
              (a.engagementAnswer rival elapsed ≠ some .failure →
                ∀ a', a.update rival elapsed = .ok a' → ¬ a'.LeftRunning .patrol) := by
  intro n past
  have follows := follows_history built nonempty os
  have turns : ∀ {p : Patrol α}, p.Follows spec.config.stops (a₀.history os) →
      ∀ k x, past[k]? = some x →
      ∃ b, x.result = .ok (.success, b) ∧ spec.config.stops[k % n]? = some b.target :=
    fun follows k x departed => follows.aimed nonempty departed
  cases lived : a₀.live os with
  | error e =>
    rw [lived] at follows
    exact ⟨turns follows, follows.index⟩
  | ok a =>
    rw [lived] at follows
    obtain ⟨m, mode⟩ := inMode_live (inMode_build built) lived
    refine ⟨turns follows, follows.index, ?_, ?_⟩
    · rw [follows.index]
      exact Nat.mod_lt _ (List.length_pos_iff.mpr nonempty)
    · intro rival elapsed
      exact ⟨mode.departures_update rival elapsed, fun engaged a' =>
        mode.interrupted rival elapsed engaged⟩

/-- Ten legs with a rival far away, and a chase after the second one. -/
def patrolAndChase : List (Operation Float) :=
  let leg := .update ⟨⟨-5000.0, -5000.0⟩, 0⟩ 60.0
  .collide scoringGroup :: leg :: leg :: .update ⟨⟨1118.0, 300.0⟩, 0⟩ 60.0 :: List.replicate 8 leg

theorem tenth_departure :
    ∃ a₀ x b, edgeSpec.build 0 = .ok a₀ ∧ (departures (a₀.history patrolAndChase))[9]? = some x ∧
      x.result = .ok (.success, b) ∧ b.target = ⟨1118.0, 274.0⟩ := by
  obtain ⟨a₀, _, built, lived, departed⟩ := exists_life edgeSpec 0 []
    (P := fun a => (departures (a.history patrolAndChase))[9]?.isSome = true) (by decide +kernel)
  cases lived
  obtain ⟨x, departed⟩ := Option.isSome_iff_exists.mp departed
  obtain ⟨b, result, stop⟩ :=
    (stops_in_order built (by decide +kernel) patrolAndChase).1 9 x departed
  exact ⟨a₀, x, b, built, departed, result, (Option.some.inj stop).symm⟩

end Agent

end ArenaAgent
