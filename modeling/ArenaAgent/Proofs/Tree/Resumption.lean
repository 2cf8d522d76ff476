import ArenaAgent.Proofs.Tree.Suspension

/-!
What a tick does to a suspended tree. Of a composite that holds a pointer either a child before the
held one takes over, which only a reactive selector allows and which resets the held child, or the
scan goes on at the held child with nothing but idle children in front of it (`resumption_tick`).
Either way the tree is left suspended exactly if the answer is `running`.
-/
namespace ArenaAgent.Tree

variable {L C : Type} [Behavior L C]

theorem resetChild_append (before : List (Tree L)) (t : Tree L) (after : List (Tree L))
    (base : Nat) :
    resetChild base before.length (before ++ t :: after) =
      (before ++ (reset (base + (forestLeaves before).length) t).1 :: after,
        (reset (base + (forestLeaves before).length) t).2) := by
  induction before generalizing base with
  | nil => rfl
  | cons s before ih =>
    simp only [List.length_cons, List.cons_append, resetChild, ih, length_forestLeaves_cons,
      Nat.add_assoc]

/-- What a tick can do to a composite that holds a pointer to `t`, its other children being idle. -/
inductive Resumption (base : Nat) (kind : Kind) (before : List (Tree L)) (t : Tree L)
    (after : List (Tree L)) (c : C) : Outcome (Tree L) C → Prop
  /-- A child before `t` does not fail and takes over; `t` is reset. -/
  | preempted {stopped : Nat} {status : Status} (reactive : kind = .reactive)
      (halted : (tickForest kind base 0 0 before c).halt = some (stopped, status)) :
      Resumption base kind before t after c
        (let s := tickForest kind base 0 0 before c
        let r := reset (base + (forestLeaves before).length) t
        ⟨status, .node kind (s.children ++ r.1 :: after)
          (if status = .running then some stopped else none), s.context, s.visits, r.2⟩)
  /-- The children before `t` are left out, or fail and stay idle; the scan goes on at `t`. -/
  | resumed (c' : C) {front : List (Tree L)} {earlier : List Nat} (idle : AllIdle front)
      (length : front.length = before.length)
      (width : (forestLeaves front).length = (forestLeaves before).length)
      (left : ∀ n ∈ earlier, n < base + (forestLeaves before).length) :
      Resumption base kind before t after c
        (let s := tickForest kind (base + (forestLeaves before).length) before.length 0
          (t :: after) c'
        let status := (s.halt.map Prod.snd).getD kind.passing
        ⟨status, .node kind (front ++ s.children)
          (if status = .running then s.halt.map Prod.fst else none), s.context, earlier ++ s.visits,
          s.resets⟩)

theorem start_reactive (pending : Option Nat) : Kind.reactive.start pending = 0 :=
  rfl

theorem start_of_ne_reactive {kind : Kind} (h : kind ≠ .reactive) (held : Nat) :
    kind.start (some held) = held := by
  cases kind with
  | sequence | selector => rfl
  | reactive => exact absurd rfl h

/-- A child at or after the one that is held does not abandon it. -/
theorem abandon_of_le {held stopped : Nat} (h : held ≤ stopped) (base : Nat) (ts : List (Tree L)) :
    abandon base (some held) stopped ts = (ts, []) := by
  rw [abandon, if_neg (Nat.not_lt.mpr h)]

theorem resumed_tick (kind : Kind) (before : List (Tree L)) (t : Tree L) (after : List (Tree L))
    (base : Nat) (c : C) {start : Nat} (hs : kind.start (some before.length) = start)
    (c' : C) {front : List (Tree L)} {earlier : List Nat} (idle : AllIdle front)
    (length : front.length = before.length)
    (width : (forestLeaves front).length = (forestLeaves before).length)
    (left : ∀ n ∈ earlier, n < base + (forestLeaves before).length)
    (whole : tickForest kind base 0 start (before ++ t :: after) c =
      let s := tickForest kind (base + (forestLeaves before).length) before.length 0 (t :: after) c'
      ⟨front ++ s.children, s.halt, s.context, earlier ++ s.visits, s.resets⟩) :
    Resumption base kind before t after c
      (tick base (.node kind (before ++ t :: after) (some before.length)) c) := by
  have target : Resumption base kind before t after c _ := .resumed c' idle length width left
  cases halted : (tickForest kind (base + (forestLeaves before).length) before.length 0 (t :: after)
      c').halt with
  | none =>
    rw [tick_node_of_pass kind _ _ base c hs (by rw [whole]; exact halted), whole]
    simp only [halted, Option.map_none, Option.getD_none, if_neg kind.passing_ne_running] at target
    exact target
  | some stop =>
    have later : before.length ≤ stop.1 :=
      (tickForest_halt kind (t :: after) _ _ _ _ _ _ halted).2.1
    rw [tick_node_of_halt kind _ _ base c hs (by rw [whole]; exact halted), whole]
    simp only [abandon_of_le later, List.append_nil]
    simp only [halted, Option.map_some, Option.getD_some] at target
    exact target

/-- What a tick does to a composite that holds a pointer. -/
theorem resumption_tick (kind : Kind) (before : List (Tree L)) (t : Tree L) (after : List (Tree L))
    (base : Nat) (c : C) (idle : AllIdle before) :
    Resumption base kind before t after c
      (tick base (.node kind (before ++ t :: after) (some before.length)) c) := by
  by_cases reactive : kind = .reactive
  · subst reactive
    have resets := resets_tickForest_of_allIdle .reactive before
      (fun t _ base c h => resets_tick_of_idle t base c h) base 0 c idle
    have length := length_children_tickForest .reactive before base 0 0 c
    have width := length_forestLeaves_tickForest .reactive before base 0 0 c
    cases halted : (tickForest .reactive base 0 0 before c).halt with
    | none =>
      have settled := rowSettled_of_allIdle .reactive before
        (fun t _ base c h => settled_tick_of_idle t base c h) base 0 c idle
      have visits := ascending_visits_tickForest .reactive before
        (fun t _ base c => ascending_visits_tick t base c) base 0 0 c
      simp only [halted] at settled
      apply resumed_tick .reactive before t after base c (start_reactive _)
        (tickForest .reactive base 0 0 before c).context settled length width
        (fun n hn => (visits.2 n hn).2)
      rw [tickForest_append_of_pass .reactive before (t :: after) base 0 c halted]
      simp only [resets, List.nil_append, Nat.zero_add]
    | some stop =>
      have whole := tickForest_append_of_halt .reactive before (t :: after) base 0 c
        (by rw [halted]; exact Option.some_ne_none _)
      have early := (tickForest_halt .reactive before base 0 0 c stop.1 stop.2 halted).2.2
      rw [Nat.zero_add] at early
      rw [tick_node_of_halt .reactive _ _ base c (start_reactive _) (by rw [whole]; exact halted),
        whole]
      simp only [abandon, if_pos early, resets, List.nil_append]
      rw [← length, resetChild_append, width]
      exact .preempted rfl halted
  · have none_earlier : ∀ n ∈ ([] : List Nat), n < base + (forestLeaves before).length :=
      fun _ h => absurd h List.not_mem_nil
    apply resumed_tick kind before t after base c (start_of_ne_reactive reactive _) c idle rfl
      rfl none_earlier
    rw [tickForest_leaving_out, Nat.zero_add]
    rfl

/-- A tick of a suspended tree, too, leaves it suspended exactly if the answer is `running`. -/
theorem settled_tick_of_suspended {base : Nat} {t : Tree L} {path : List Nat} {i : Nat}
    (h : SuspendedAt base t path i) (c : C) : Settled base (tick base t c) := by
  induction h generalizing c with
  | leaf base b => exact settled_tick_leaf b base c
  | @node base kind before t after path i left held right ih =>
    have idle_rows := fun ts => rowSettled_of_allIdle (L := L) (C := C) kind ts
      fun t _ base c => settled_tick_of_idle t base c
    have resumption := resumption_tick kind before t after base c left
    generalize tick base (.node kind (before ++ t :: after) (some before.length)) c =
      o at resumption ⊢
    cases resumption with
    | preempted reactive halted =>
      have row := idle_rows before base 0 c left
      simp only [halted] at row
      have rest := allIdle_cons.mpr ⟨idle_reset t (base + (forestLeaves before).length), right⟩
      exact settled_node kind (RowSettled.append row rest) _ rfl rfl rfl
    | @resumed c' front earlier idle length width _ =>
      have row := rowSettled_cons kind t after _ before.length c' (ih c') right
        (idle_rows after _ _ _ right)
      rw [← Nat.zero_add before.length, ← length, ← width] at row
      have whole := RowSettled.extend row idle [] allIdle_nil earlier
      rw [length, width, Nat.zero_add, List.append_nil] at whole
      exact settled_node kind whole _ rfl rfl rfl

end ArenaAgent.Tree
