import ArenaAgent.Proofs.Arena.Distances
import ArenaAgent.Proofs.Json.Overlay
import ArenaAgent.Proofs.Json.Rereading

/-!
Values that were read, are written and are read again. They come back with the same structure:
visuals as themselves, and points, rectangles and configurations with each double as its own text
reads (`Json.read_written`).
-/
namespace ArenaAgent

open Binary64

/-- A point whose coordinates were written and read again. -/
def Point.reread (p : Point Float) : Point Float :=
  ⟨Json.reread p.x, Json.reread p.y⟩

def Rect.reread (r : Rect Float) : Rect Float :=
  ⟨r.min.reread, r.max.reread⟩

def Config.reread (c : Config Float) : Config Float :=
  .ofValues (fun p => Json.reread (c.value p)) (c.stops.map Point.reread)

namespace Json

variable {β : Type} {read : Json → Option β} {own a b : β}
  {first second text text' : String} {v : Json}

/-! ## What is read is finite -/

theorem finite_of_read {x : Float} (h : toFloat? v = some x) : IsFinite x := by
  cases v with
  | number n => exact finite_of_toFloat? h
  | _ => cases h

theorem parts_of_pair? (h : pair? first second read v = some (a, b)) :
    (∃ w, read w = some a) ∧ ∃ w, read w = some b := by
  cases v with
  | array items =>
    obtain ⟨v, w, -, ha, hb⟩ := pair?_array_iff.mp h
    exact ⟨⟨v, ha⟩, w, hb⟩
  | object members =>
    obtain ⟨-, ⟨v, -, ha⟩, w, -, hb⟩ := pair?_object_iff.mp h
    exact ⟨⟨v, ha⟩, w, hb⟩
  | _ => cases h

theorem point_finite_of_read {p : Point Float} (h : toPoint? v = some p) : p.IsFinite := by
  obtain ⟨⟨x, y⟩, parts, rfl⟩ := Option.map_eq_some_iff.mp h
  obtain ⟨⟨_, hx⟩, _, hy⟩ := parts_of_pair? parts
  exact ⟨finite_of_read hx, finite_of_read hy⟩

theorem rect_finite_of_read {r : Rect Float} (h : toRect? v = some r) :
    r.min.IsFinite ∧ r.max.IsFinite := by
  obtain ⟨⟨min, max⟩, parts, rfl⟩ := Option.map_eq_some_iff.mp h
  obtain ⟨⟨_, hmin⟩, _, hmax⟩ := parts_of_pair? parts
  exact ⟨point_finite_of_read hmin, point_finite_of_read hmax⟩

theorem stops_finite_of_read {stops : List (Point Float)} (h : toStops? v = some stops) :
    ∀ p ∈ stops, p.IsFinite := by
  cases v with
  | array items =>
    change items.mapM toPoint? = some stops at h
    induction items generalizing stops with
    | nil =>
      cases h
      exact nofun
    | cons item items ih =>
      rw [List.mapM_cons] at h
      obtain ⟨p, here, h⟩ := Option.bind_eq_some_iff.mp h
      obtain ⟨rest, there, same⟩ := Option.bind_eq_some_iff.mp h
      cases same
      exact List.forall_mem_cons.mpr ⟨point_finite_of_read here, ih there⟩
  | _ => cases h

/-- What a field gets is read, unless it is what the field has of its own. -/
theorem Gets.of_read {P : β → Prop} {name : String} {members : List (Option String × Json)}
    (h : Gets read own name members b) (shipped : P own) (given : ∀ v b, read v = some b → P b) :
    P b := by
  cases h with
  | missing => exact shipped
  | given _ _ reads => exact given _ _ reads

/-- All doubles of a configuration are finite. -/
structure FiniteConfig (c : Config Float) : Prop where
  value : ∀ p : Parameter, IsFinite (c.value p)
  stops : ∀ p ∈ c.stops, p.IsFinite

theorem finite_shipped : FiniteConfig Config.shipped :=
  ⟨fun p => by cases p <;> rfl, by decide +kernel⟩

theorem config_finite_of_read {c : Config Float} (h : toConfig? v = some c) : FiniteConfig c := by
  have object {members : List (Option String × Json)} (h : toConfig? (.object members) = some c) :
      FiniteConfig c := by
    have laid := toConfig?_object_iff.mp h
    constructor
    · intro p
      exact (laid.value p).of_read (finite_shipped.value p) fun _ _ => finite_of_read
    · exact laid.stops.of_read finite_shipped.stops fun _ _ => stops_finite_of_read
  cases v with
  | array items =>
    rw [toConfig?_array] at h
    split at h
    · exact object h
    · cases h
  | object members => exact object h
  | _ => cases h

/-! ## What is written is read -/

/-- A text that is written for a value and reads as `b`. -/
def Rereads (read : Json → Option β) (text : String) (b : β) : Prop :=
  ∃ v : Json, Prints text v.tokens ∧ read v = some b

theorem Rereads.read_back (h : Rereads read text b) : (parse text).bind read = some b := by
  obtain ⟨v, prints, reads⟩ := h
  rw [parse_eq_some_iff.mpr prints.spelledBy, Option.bind_some, reads]

/-- Among members of distinct names each is the only one of its name. -/
theorem membersNamed_of_distinct {name : String} {members : List (Option String × Json)}
    (distinct : (members.map Prod.fst).Nodup) (mem : (some name, v) ∈ members) :
    membersNamed name members = [(some name, v)] := by
  obtain ⟨before, after, rfl⟩ := List.append_of_mem mem
  rw [List.map_append, List.map_cons, List.nodup_middle, List.nodup_cons,
    ← List.map_append] at distinct
  refine membersNamed_eq_singleton_iff.mpr ⟨rfl, before, after, rfl, fun m other same =>
    distinct.1 ?_⟩
  exact List.mem_map.mpr ⟨m, other, same⟩

theorem rereads_number {x : Float} (finite : IsFinite x) :
    Rereads toFloat? (numberText x) (reread x) := by
  obtain ⟨n, prints, -, reads⟩ := numberText_reads finite
  exact ⟨.number n, prints, reads⟩

theorem Rereads.pair (ha : Rereads read text a) (hb : Rereads read text' b)
    (plain : Plain first ∧ Plain second) (distinct : first ≠ second) :
    Rereads (pair? first second read) (objectText [(first, text), (second, text')]) (a, b) := by
  obtain ⟨v, printsV, readsV⟩ := ha
  obtain ⟨w, printsW, readsW⟩ := hb
  have names : ([(some first, v), (some second, w)].map Prod.fst).Nodup := by simp [distinct]
  refine ⟨.object [(some first, v), (some second, w)], ?_, ?_⟩
  · exact @prints_object [(first, text, v), (second, text', w)] (by simp [plain])
      (by simp [printsV, printsW])
  · exact pair?_object_iff.mpr ⟨by simp, ⟨v, membersNamed_of_distinct names (by simp), readsV⟩,
      w, membersNamed_of_distinct names (by simp), readsW⟩

theorem rereads_point {p : Point Float} (finite : p.IsFinite) :
    Rereads toPoint? (pointText p) p.reread := by
  obtain ⟨v, prints, reads⟩ := (rereads_number finite.1).pair (rereads_number finite.2)
    (by simp [Plain] : Plain "x" ∧ Plain "y") (by decide)
  exact ⟨v, prints, by rw [toPoint?, reads]; rfl⟩

theorem rereads_rect {r : Rect Float} (finite : r.min.IsFinite ∧ r.max.IsFinite) :
    Rereads toRect? (rectText r) r.reread := by
  obtain ⟨v, prints, reads⟩ := (rereads_point finite.1).pair (rereads_point finite.2)
    (by simp [Plain] : Plain "min" ∧ Plain "max") (by decide)
  exact ⟨v, prints, by rw [toRect?, reads]; rfl⟩

theorem rereads_visual (v : Visual) : Rereads toVisual? (visualText v) v :=
  ⟨.string (some v.name),
    prints_name (by cases v <;> simp [Plain, Visual.name]), by cases v <;> rfl⟩

theorem rereads_stops {stops : List (Point Float)} (finite : ∀ p ∈ stops, p.IsFinite) :
    Rereads toStops? (stopsText stops) (stops.map Point.reread) := by
  have items : ∃ items : List (String × Json), items.map Prod.fst = stops.map pointText ∧
      (∀ item ∈ items, Prints item.1 item.2.tokens) ∧
        (items.map Prod.snd).mapM toPoint? = some (stops.map Point.reread) := by
    induction stops with
    | nil => exact ⟨[], rfl, nofun, rfl⟩
    | cons p stops ih =>
      obtain ⟨here, finite⟩ := List.forall_mem_cons.mp finite
      obtain ⟨items, texts, prints, reads⟩ := ih finite
      obtain ⟨v, printsV, readsV⟩ := rereads_point here
      refine ⟨(pointText p, v) :: items, ?_, List.forall_mem_cons.mpr ⟨printsV, prints⟩, ?_⟩
      · rw [List.map_cons, texts, List.map_cons]
      · rw [List.map_cons, List.mapM_cons, readsV, reads]
        rfl
  obtain ⟨items, texts, prints, reads⟩ := items
  refine ⟨.array (items.map Prod.snd), ?_, reads⟩
  rw [stopsText, ← texts]
  exact prints_array prints

theorem rereads_config {c : Config Float} (finite : FiniteConfig c) :
    Rereads toConfig? (configText c) c.reread := by
  choose number printsNumber readsNumber using fun p => rereads_number (finite.value p)
  obtain ⟨route, printsRoute, readsRoute⟩ := rereads_stops finite.stops
  let fields : List (String × String × Json) :=
    (Parameter.all.map fun p => (p.name, numberText (c.value p), number p)) ++
      [(stopsName, stopsText c.stops, route)]
  have value (p : Parameter) : (p.name, numberText (c.value p), number p) ∈ fields :=
    List.mem_append_left _ (List.mem_map.mpr ⟨p, p.mem_all, rfl⟩)
  have stops : (stopsName, stopsText c.stops, route) ∈ fields :=
    List.mem_append_right _ (List.mem_singleton_self _)
  have prints :
      Prints (configText c) (Json.object (fields.map fun f => (some f.1, f.2.2))).tokens := by
    refine @prints_object fields ?_ ?_
    · have plain : ∀ name ∈ fieldNames, Plain name := by
        simp [fieldNames, Parameter.all, Parameter.name, stopsName, Plain]
      exact fun f mem => plain f.1 (List.mem_map_of_mem (f := Prod.fst) mem)
    · refine List.forall_mem_append.mpr ⟨List.forall_mem_map.mpr fun p _ => printsNumber p, ?_⟩
      exact List.forall_mem_singleton.mpr printsRoute
  refine ⟨_, prints, toConfig?_object_iff.mpr ?_⟩
  have distinct : ((fields.map fun f => (some f.1, f.2.2)).map Prod.fst).Nodup := by
    have names : (fieldNames.map some).Nodup := by decide
    exact names
  constructor
  · intro m mem
    obtain ⟨f, -, rfl⟩ := List.mem_map.mp mem
    exact Option.some_ne_none _
  · intro p
    rw [Config.reread, Config.value_ofValues]
    have mem : (some p.name, number p) ∈ fields.map fun f => (some f.1, f.2.2) :=
      List.mem_map.mpr ⟨_, value p, rfl⟩
    exact gets_iff.mpr (.inr ⟨number p, membersNamed_of_distinct distinct mem, readsNumber p⟩)
  · have mem : (some stopsName, route) ∈ fields.map fun f => (some f.1, f.2.2) :=
      List.mem_map.mpr ⟨_, stops, rfl⟩
    exact gets_iff.mpr (.inr ⟨route, membersNamed_of_distinct distinct mem, readsRoute⟩)

/-- A value that a text reads as is written as a text that reads: as the same visual, or as the
point, the rectangle or the configuration with each double as its own text reads. All these doubles
are finite, and a finite double reads back as a finite double: as itself with its sign if it is a
zero or is written with few digits and a small power of ten, and otherwise as one that differs from
it by a few of its last places. -/
theorem read_written :
    (∀ text p, (parse text).bind toPoint? = some p →
      p.IsFinite ∧ (parse (pointText p)).bind toPoint? = some p.reread) ∧
    (∀ text r, (parse text).bind toRect? = some r →
      (r.min.IsFinite ∧ r.max.IsFinite) ∧ (parse (rectText r)).bind toRect? = some r.reread) ∧
    (∀ text v,
      (parse text).bind toVisual? = some v → (parse (visualText v)).bind toVisual? = some v) ∧
    (∀ text c, Config.ofText? text = some c →
      FiniteConfig c ∧ Config.ofText? (configText c) = some c.reread) ∧
    ∀ x, IsFinite x →
      (parse (numberText x)).bind toFloat? = some (reread x) ∧ IsFinite (reread x) ∧
        (value x = 0 → reread x = x) ∧
      (∀ n : Numeral, (Json.number n).SpelledBy (numberText x) → n.digits ≤ 2 ^ 53 → -22 ≤ n.scale →
        n.scale ≤ 22 → reread x = x) ∧
      |value (reread x) - value x| ≤ |value x| / 2 ^ 49 + 2 ^ (-1073 : ℤ) := by
  refine ⟨fun text p read => ?_, fun text r read => ?_, fun text v _ => ?_, fun text c read => ?_,
    fun x finite => ?_⟩
  · obtain ⟨v, -, read⟩ := Option.bind_eq_some_iff.mp read
    have finite := point_finite_of_read read
    exact ⟨finite, (rereads_point finite).read_back⟩
  · obtain ⟨v, -, read⟩ := Option.bind_eq_some_iff.mp read
    have finite := rect_finite_of_read read
    exact ⟨finite, (rereads_rect finite).read_back⟩
  · exact (rereads_visual v).read_back
  · obtain ⟨v, -, read⟩ := Option.bind_eq_some_iff.mp read
    have finite := config_finite_of_read read
    exact ⟨finite, (rereads_config finite).read_back⟩
  · refine ⟨(rereads_number finite).read_back, isFinite_reread finite, reread_of_zero finite, ?_,
      abs_reread_sub_le finite⟩
    intro n spelled few lower upper
    exact reread_of_short finite spelled few lower upper

/-- A point with a short coordinate and a negative zero comes back as it is. -/
theorem short_point_read_back :
    (parse "[1e-1,-0]").bind toPoint? = some ⟨0.1, -0.0⟩ ∧
      (parse (pointText ⟨0.1, -0.0⟩)).bind toPoint? = some ⟨0.1, -0.0⟩ := by
  obtain ⟨point, -, -, -, number⟩ := read_written
  have read : (parse "[1e-1,-0]").bind toPoint? = some ⟨0.1, -0.0⟩ := by decide +kernel
  obtain ⟨⟨hx, hy⟩, back⟩ := point _ _ read
  obtain ⟨-, -, -, short, -⟩ := number _ hx
  obtain ⟨-, -, zero, -⟩ := number _ hy
  refine ⟨read, ?_⟩
  rw [back, Point.reread, short ⟨false, [0], [1], none⟩ (by decide +kernel) (by decide) (by decide)
    (by decide), zero rfl]

/-- A whole number of sixteen digits is written with seventeen, and these read as the
next whole number. -/
theorem whole_number_read_otherwise :
    (parse "[8000000000000001,0]").bind toPoint? = some ⟨8000000000000001.0, 0.0⟩ ∧
      pointText ⟨8000000000000001.0, 0.0⟩ = "\x7b\"x\":8000000000000001.0,\"y\":0.0\x7d" ∧
        (parse (pointText ⟨8000000000000001.0, 0.0⟩)).bind toPoint? =
          some ⟨8000000000000002.0, 0.0⟩ ∧
          (8000000000000001.0 : Float) ≠ 8000000000000002.0 := by
  decide +kernel

end Json

end ArenaAgent
