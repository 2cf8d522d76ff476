import ArenaAgent.Proofs.Tree.Scan

/-!
A tick read as a run through its leaves. The leaves that a tick visits, ticked one after the
other with the context handed on, give the context in which the tick ends (`context_tick`),
and with it the answer of each leaf (`answers`). At most one leaf answers `running`, and then
it is the last one.
-/
namespace ArenaAgent.Tree

variable {L C : Type} [Behavior L C]

/-- Ticks the leaves with the given numbers one after the other: their answers, and the
context in the end. -/
def replay (leaves : List L) : List Nat → C → List (Nat × Status) × C
  | [], c => ([], c)
  | n :: ns, c =>
    match leaves[n]? with
    | some b =>
      let r := Behavior.tick b c
      let rest := replay leaves ns r.2.2
      ((n, r.1) :: rest.1, rest.2)
    | none => replay leaves ns c

theorem replay_append (leaves : List L) (ns ms : List Nat) (c : C) :
    replay leaves (ns ++ ms) c =
      ((replay leaves ns c).1 ++ (replay leaves ms (replay leaves ns c).2).1,
        (replay leaves ms (replay leaves ns c).2).2) := by
  induction ns generalizing c with
  | nil => rfl
  | cons n ns ih =>
    simp only [List.cons_append, replay]
    cases leaves[n]? with
    | none => exact ih c
    | some b => simp only [ih, List.cons_append]

/-- The answers of the leaves visited by one tick, in the order of the visits. -/
def answers (t : Tree L) (c : C) : List (Nat × Status) :=
  (replay t.leaves (t.tick 0 c).visits c).1

/-- Answers after which a tree gives the answer `status`: only the last one can be `running`, and it
is exactly if the answer of the tree is. -/
inductive Concluded : Status → List (Nat × Status) → Prop
  | resolved {status : Status} {as : List (Nat × Status)} (h : status ≠ .running)
      (none : ∀ a ∈ as, a.2 ≠ .running) : Concluded status as
  | suspended {as : List (Nat × Status)} (n : Nat) (none : ∀ a ∈ as, a.2 ≠ .running) :
      Concluded .running (as ++ [(n, .running)])

theorem Concluded.none_running {status : Status} {as : List (Nat × Status)}
    (h : Concluded status as) (hs : status ≠ .running) : ∀ a ∈ as, a.2 ≠ .running := by
  cases h with
  | resolved _ none => exact none
  | suspended n none => exact absurd rfl hs

theorem Concluded.append {status : Status} {as bs : List (Nat × Status)}
    (none : ∀ a ∈ as, a.2 ≠ .running) (h : Concluded status bs) : Concluded status (as ++ bs) := by
  have both {cs : List (Nat × Status)} (hc : ∀ c ∈ cs, c.2 ≠ .running) :
      ∀ a ∈ as ++ cs, a.2 ≠ .running := by
    intro a ha
    rcases List.mem_append.mp ha with ha | ha
    · exact none a ha
    · exact hc a ha
  cases h with
  | resolved hs rest => exact .resolved hs (both rest)
  | suspended n rest =>
    rw [← List.append_assoc]
    exact .suspended n (both rest)

/-- What a run through the leaves `visits` of a longer row tells about a tick with this answer and
this final context. -/
structure Replayed (leaves : List L) (c : C) (visits : List Nat) (status : Status) (context : C) :
    Prop where
  numbers : (replay leaves visits c).1.map Prod.fst = visits
  context : (replay leaves visits c).2 = context
  concluded : Concluded status (replay leaves visits c).1

theorem Replayed.append {leaves : List L} {c c' c'' : C} {ns ms : List Nat}
    {status status' : Status} (first : Replayed leaves c ns status c')
    (rest : Replayed leaves c' ms status' c'') (h : status ≠ .running) :
    Replayed leaves c (ns ++ ms) status' c'' := by
  have e := replay_append leaves ns ms c
  rw [first.context] at e
  constructor
  · rw [e, List.map_append, first.numbers, rest.numbers]
  · rw [e]
    exact rest.context
  · rw [e]
    exact .append (first.concluded.none_running h) rest.concluded

theorem Replayed.nil (leaves : List L) (c : C) {status : Status} (h : status ≠ .running) :
    Replayed leaves c [] status c :=
  ⟨rfl, rfl, .resolved h fun _ h => absurd h List.not_mem_nil⟩

theorem Replayed.leaf {leaves : List L} {n : Nat} {b : L} (h : leaves[n]? = some b) (c : C) :
    Replayed leaves c [n] (Behavior.tick b c).1 (Behavior.tick b c).2.2 := by
  have e : replay leaves [n] c = ([(n, (Behavior.tick b c).1)], (Behavior.tick b c).2.2) := by
    simp only [replay, h]
  refine ⟨by rw [e]; rfl, by rw [e], ?_⟩
  rw [e]
  by_cases hs : (Behavior.tick b c).1 = .running
  · rw [hs]
    exact .append (fun _ h => absurd h List.not_mem_nil)
      (.suspended n fun _ h => absurd h List.not_mem_nil)
  · exact .resolved hs (by simpa using hs)

theorem prefix_drop_of_append {xs ys zs : List L} {n : Nat} (h : xs ++ ys <+: zs.drop n) :
    xs <+: zs.drop n ∧ ys <+: zs.drop (n + xs.length) := by
  obtain ⟨rest, e⟩ := h
  refine ⟨⟨ys ++ rest, by rw [← e, List.append_assoc]⟩, ⟨rest, ?_⟩⟩
  rw [← List.drop_drop, ← e, List.append_assoc, List.drop_left]

theorem replayed_tickForest (kind : Kind) (ts : List (Tree L)) (leaves : List L)
    (ih : ∀ t ∈ ts, ∀ (base : Nat) (c : C), t.leaves <+: leaves.drop base →
      Replayed leaves c (tick base t c).visits (tick base t c).status (tick base t c).context)
    (base index skip : Nat) (c : C) (h : forestLeaves ts <+: leaves.drop base) :
    let s := tickForest kind base index skip ts c
    Replayed leaves c s.visits ((s.halt.map Prod.snd).getD kind.passing) s.context := by
  induction ts generalizing base index skip c with
  | nil => exact .nil leaves c kind.passing_ne_running
  | cons t ts ihts =>
    obtain ⟨own, others⟩ := prefix_drop_of_append h
    have first := ih t (List.mem_cons_self ..) base c own
    have rest := fun index skip c =>
      ihts (fun s hs => ih s (List.mem_cons_of_mem _ hs)) (base + t.leafCount) index skip c others
    cases skip with
    | succ skip => exact rest _ skip c
    | zero =>
      simp only [tickForest]
      split
      · rename_i passed
        exact first.append (rest _ 0 _) (passed ▸ kind.passing_ne_running)
      · exact first

/-- A tick is a run through the leaves it visits. The row `leaves` holds those of the tree from
number `base` on. -/
theorem replayed_tick (t : Tree L) (leaves : List L) (base : Nat) (c : C)
    (h : t.leaves <+: leaves.drop base) :
    Replayed leaves c (tick base t c).visits (tick base t c).status (tick base t c).context := by
  induction t generalizing base c with
  | leaf b =>
    apply Replayed.leaf
    obtain ⟨rest, e⟩ := h
    rw [← Nat.add_zero base, ← List.getElem?_drop, ← e]
    rfl
  | node kind children pending ih =>
    have scan := replayed_tickForest kind children leaves ih base 0 (kind.start pending) c h
    cases halted : (tickForest kind base 0 (kind.start pending) children c).halt with
    | none =>
      rw [tick_node_of_pass kind children pending base c rfl halted]
      simp only [halted] at scan
      exact scan
    | some stop =>
      rw [tick_node_of_halt kind children pending base c rfl halted]
      simp only [halted] at scan
      exact scan

/-- The context in which a tick ends is the one that the visited leaves make of the context in
which it began. -/
theorem context_tick (t : Tree L) (c : C) :
    (replay t.leaves (t.tick 0 c).visits c).2 = (t.tick 0 c).context :=
  (replayed_tick t t.leaves 0 c (List.prefix_refl _)).context

theorem numbers_answers (t : Tree L) (c : C) : (answers t c).map Prod.fst = (t.tick 0 c).visits :=
  (replayed_tick t t.leaves 0 c (List.prefix_refl _)).numbers

theorem fst_mem_of_mem_replay {leaves : List L} {ns : List Nat} {c : C} {r : Nat × Status}
    (h : r ∈ (replay leaves ns c).1) : r.1 ∈ ns := by
  induction ns generalizing c with
  | nil => exact absurd h List.not_mem_nil
  | cons n ns ih =>
    simp only [replay] at h
    cases found : leaves[n]? with
    | none =>
      rw [found] at h
      exact List.mem_cons_of_mem _ (ih h)
    | some b =>
      rw [found] at h
      rcases List.mem_cons.mp h with rfl | h
      · exact List.mem_cons_self ..
      · exact List.mem_cons_of_mem _ (ih h)

/-- A leaf answers to the context that the leaves visited before it leave behind. -/
theorem mem_answers_iff_of_visits {t : Tree L} {c : C} {before after : List Nat} {n : Nat} {b : L}
    (visits : (t.tick 0 c).visits = before ++ n :: after) (leaf : t.leaves[n]? = some b)
    (status : Status) :
    (n, status) ∈ answers t c ↔ status = (Behavior.tick b (replay t.leaves before c).2).1 := by
  have once : (before ++ n :: after).Nodup :=
    visits ▸ (ascending_visits_tick t 0 c).1.imp Nat.ne_of_lt
  have notBefore : n ∉ before :=
    fun mem => (List.nodup_append.mp once).2.2 n mem n (List.mem_cons_self ..) rfl
  have notAfter : n ∉ after := (List.nodup_cons.mp (List.nodup_append.mp once).2.1).1
  simp only [answers, visits, replay_append, replay, leaf, List.mem_append, List.mem_cons,
    Prod.mk.injEq, true_and]
  constructor
  · rintro (mem | same | mem)
    · exact absurd (fst_mem_of_mem_replay mem) notBefore
    · exact same
    · exact absurd (fst_mem_of_mem_replay mem) notAfter
  · exact fun same => .inr (.inl same)

/-- A leaf answers `running` exactly if the tick does and the leaf is the last one visited. -/
theorem running_mem_answers_iff (t : Tree L) (c : C) (n : Nat) :
    (n, .running) ∈ answers t c ↔
      (t.tick 0 c).status = .running ∧ (t.tick 0 c).visits.getLast? = some n := by
  have concluded : Concluded (t.tick 0 c).status (answers t c) :=
    (replayed_tick t t.leaves 0 c (List.prefix_refl _)).concluded
  rw [← numbers_answers]
  generalize answers t c = as at concluded
  generalize (t.tick 0 c).status = status at concluded
  cases concluded with
  | resolved h none =>
    refine ⟨fun mem => absurd rfl (none _ mem), fun both => absurd both.1 h⟩
  | @suspended earlier m none =>
    have last : ((earlier ++ [(m, Status.running)]).map Prod.fst).getLast? = some m := by
      rw [List.map_append]
      exact List.getLast?_concat ..
    constructor
    · intro mem
      rcases List.mem_append.mp mem with mem | mem
      · exact absurd rfl (none _ mem)
      · cases List.mem_singleton.mp mem
        exact ⟨rfl, last⟩
    · rintro ⟨_, h⟩
      rw [last] at h
      cases h
      exact List.mem_append_right _ (List.mem_singleton.mpr rfl)

end ArenaAgent.Tree
