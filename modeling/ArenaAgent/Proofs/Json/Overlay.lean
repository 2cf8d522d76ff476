import ArenaAgent.Host.ConfigFile
import ArenaAgent.Proofs.Json.Grammar
import Mathlib.Data.List.Perm.Basic

/-!
A configuration text lays its fields over the shipped configuration. An object gives each field the
value of the one member of its name, and a field without member its shipped value; nothing else of
the object counts (`text_overlays_shipped`).
-/
namespace ArenaAgent

namespace Json

/-- The members of an object that have this name. -/
def membersNamed (name : String) (members : List (Option String × Json)) :
    List (Option String × Json) :=
  members.filter fun m => m.1 = some name

/-- What a field gets from the members of an object: what is read from the one member of its name,
or, if there is no such member, a value of its own. -/
inductive Gets {β : Type} (read : Json → Option β) (own : β) (name : String)
    (members : List (Option String × Json)) : β → Prop
  | missing (none : ∀ m ∈ members, m.1 ≠ some name) : Gets read own name members own
  | given {before after : List (Option String × Json)} {v : Json} {b : β}
      (split : members = before ++ (some name, v) :: after)
      (once : ∀ m ∈ before ++ after, m.1 ≠ some name) (reads : read v = some b) :
      Gets read own name members b

variable {β : Type} {read : Json → Option β} {own b : β} {name : String}
  {members members' : List (Option String × Json)}

theorem membersNamed_eq_nil_iff :
    membersNamed name members = [] ↔ ∀ m ∈ members, m.1 ≠ some name := by
  simp [membersNamed]

theorem membersNamed_eq_singleton_iff {m : Option String × Json} :
    membersNamed name members = [m] ↔ m.1 = some name ∧
      ∃ before after, members = before ++ m :: after ∧ ∀ m ∈ before ++ after, m.1 ≠ some name := by
  rw [membersNamed, List.filter_eq_cons_iff]
  constructor
  · rintro ⟨before, after, split, earlier, named, later⟩
    refine ⟨by simpa using named, before, after, split, ?_⟩
    simp only [List.filter_eq_nil_iff, decide_eq_true_eq] at earlier later
    exact List.forall_mem_append.mpr ⟨earlier, later⟩
  · rintro ⟨named, before, after, split, others⟩
    obtain ⟨earlier, later⟩ := List.forall_mem_append.mp others
    refine ⟨before, after, split, ?_, by simpa using named, ?_⟩
    · simpa using earlier
    · simpa using later

/-- What a field gets depends on the members of its name alone. -/
theorem gets_iff :
    Gets read own name members b ↔ membersNamed name members = [] ∧ b = own ∨
      ∃ v, membersNamed name members = [(some name, v)] ∧ read v = some b := by
  constructor
  · intro h
    cases h with
    | missing none => exact .inl ⟨membersNamed_eq_nil_iff.mpr none, rfl⟩
    | given split once reads =>
      exact .inr ⟨_, membersNamed_eq_singleton_iff.mpr ⟨rfl, _, _, split, once⟩, reads⟩
  · rintro (⟨none, rfl⟩ | ⟨v, one, reads⟩)
    · exact .missing (membersNamed_eq_nil_iff.mp none)
    · obtain ⟨-, before, after, split, once⟩ := membersNamed_eq_singleton_iff.mp one
      exact .given split once reads

/-- A field gets nothing if its name stands twice or a value under its name cannot be read. -/
theorem not_gets_iff :
    (¬ ∃ b, Gets read own name members b) ↔
      1 < members.countP (·.1 = some name) ∨ ∃ v, (some name, v) ∈ members ∧ read v = none := by
  have count : members.countP (·.1 = some name) = (membersNamed name members).length :=
    List.countP_eq_length_filter
  have mem (v : Json) : (some name, v) ∈ members ↔ (some name, v) ∈ membersNamed name members := by
    simp [membersNamed]
  simp only [gets_iff, count, mem]
  match found : membersNamed name members with
  | [] => simp
  | [m] =>
    obtain ⟨same, -⟩ := membersNamed_eq_singleton_iff.mp found
    obtain ⟨_, v⟩ := m
    cases same
    simp [Option.eq_none_iff_forall_ne_some]
  | _ :: _ :: _ => simp

/-! ## Fields of a configuration -/

/-- The names of the fields of a configuration, in the order of their declaration. -/
def fieldNames : List String :=
  Parameter.all.map Parameter.name ++ [stopsName]

theorem parameter_name_mem (p : Parameter) : p.name ∈ fieldNames :=
  List.mem_append_left _ (List.mem_map_of_mem p.mem_all)

theorem stopsName_mem : stopsName ∈ fieldNames :=
  List.mem_append_right _ (List.mem_singleton_self _)

theorem exists_fieldNames_iff {P : String → Prop} :
    (∃ name ∈ fieldNames, P name) ↔ (∃ p : Parameter, P p.name) ∨ P stopsName := by
  simp [fieldNames, or_and_right, exists_or, Parameter.mem_all]

/-- The configuration that the members of an object lay over the shipped one. -/
structure Overlay (members : List (Option String × Json)) (c : Config Float) : Prop where
  texts : ∀ m ∈ members, m.1 ≠ none
  value : ∀ p : Parameter, Gets toFloat? (Config.shipped.value p) p.name members (c.value p)
  stops : Gets toStops? Config.shippedStops stopsName members c.stops

/-- Members whose names are texts. -/
def ofTexts (members : List (String × Json)) : List (Option String × Json) :=
  members.map fun m => (some m.1, m.2)

theorem named_eq_some_iff {named : List (String × Json)} :
    Json.named members = some named ↔ members = ofTexts named := by
  induction members generalizing named with
  | nil =>
    rw [Json.named, List.mapM_nil]
    cases named <;> simp [ofTexts]
  | cons m members ih =>
    obtain ⟨text, v⟩ := m
    rw [Json.named, List.mapM_cons, ← Json.named]
    cases text with
    | none => cases named <;> simp [ofTexts]
    | some text =>
      change ((Json.named members).bind fun named => some ((text, v) :: named)) = some named ↔ _
      rw [Option.bind_eq_some_iff]
      constructor
      · rintro ⟨later, rest, same⟩
        cases same
        rw [ih.mp rest]
        rfl
      · intro split
        cases named with
        | nil => cases split
        | cons n named =>
          obtain ⟨head, rest⟩ := List.cons.inj split
          cases head
          exact ⟨named, ih.mpr rest, rfl⟩

theorem membersNamed_ofTexts (named : List (String × Json)) :
    membersNamed name (ofTexts named) = ofTexts (named.filter (·.1 = name)) := by
  simp [membersNamed, ofTexts, List.filter_map, Function.comp_def]

theorem member?_eq_none_iff {named : List (String × Json)} :
    member? name named = some none ↔ membersNamed name (ofTexts named) = [] := by
  rw [membersNamed_ofTexts, member?]
  generalize named.filter (·.1 = name) = kept
  match kept with
  | [] | [m] | _ :: _ :: _ => simp [ofTexts]

theorem member?_eq_some_iff {named : List (String × Json)} {v : Json} :
    member? name named = some (some v) ↔ membersNamed name (ofTexts named) = [(some name, v)] := by
  have names : ∀ m ∈ named.filter (·.1 = name), m.1 = name :=
    fun m mem => by simpa using (List.mem_filter.mp mem).2
  rw [membersNamed_ofTexts, member?]
  generalize named.filter (·.1 = name) = kept at names
  match kept with
  | [m] => simp [ofTexts, names m (List.mem_singleton_self m)]
  | [] | _ :: _ :: _ => simp [ofTexts]

theorem optional_ofTexts_iff {named : List (String × Json)} :
    (member? name named).bind (optional read own) = some b ↔
      Gets read own name (ofTexts named) b := by
  rw [Option.bind_eq_some_iff, Option.exists, gets_iff, member?_eq_none_iff]
  simp only [member?_eq_some_iff, optional, Option.some.injEq, @eq_comm _ b own]

theorem required_ofTexts_iff {named : List (String × Json)} :
    (member? name named).bind (required read) = some b ↔
      ∃ v, membersNamed name (ofTexts named) = [(some name, v)] ∧ read v = some b := by
  rw [Option.bind_eq_some_iff, Option.exists]
  simp [member?_eq_some_iff, required]

theorem configOf_eq_some_iff {parameter : Parameter → Option (Option Json)}
    {stops : Option (Option Json)} {c : Config Float} :
    configOf parameter stops = some c ↔
      (∀ p, (parameter p).bind (optional toFloat? (Config.shipped.value p)) = some (c.value p)) ∧
        stops.bind (optional toStops? Config.shippedStops) = some c.stops := by
  simp only [configOf, bind, pure, Option.bind_eq_some_iff]
  constructor
  · rintro ⟨_, width, _, height, _, speed, _, sense, _, flee, _, arrival, _, margin, _, wander, _,
      extent, _, found, _, route, made⟩
    cases made
    refine ⟨fun p => ?_, _, found, route⟩
    cases p <;> assumption
  · rintro ⟨value, _, found, route⟩
    exact ⟨_, value .arenaWidth, _, value .arenaHeight, _, value .runSpeed, _, value .senseRadius,
      _, value .fleeRadius, _, value .arrivalRadius, _, value .fleeMargin, _, value .wanderMargin,
      _, value .halfExtent, _, found, _, route, rfl⟩

theorem exists_ofTexts_iff : (∃ named, members = ofTexts named) ↔ ∀ m ∈ members, m.1 ≠ none := by
  constructor
  · rintro ⟨named, rfl⟩ m mem
    obtain ⟨n, -, rfl⟩ := List.mem_map.mp mem
    exact Option.some_ne_none _
  · intro texts
    induction members with
    | nil => exact ⟨[], rfl⟩
    | cons m members ih =>
      obtain ⟨named, rfl⟩ := ih fun m mem => texts m (.tail _ mem)
      obtain ⟨name, same⟩ := Option.ne_none_iff_exists'.mp (texts m (.head _))
      exact ⟨(name, m.2) :: named, by simp [ofTexts, ← same]⟩

/-- An object reads as the configuration that it lays over the shipped one. -/
theorem toConfig?_object_iff {c : Config Float} :
    toConfig? (.object members) = some c ↔ Overlay members c := by
  change ((named members).bind fun named =>
    configOf (fun p => member? p.name named) (member? stopsName named)) = some c ↔ _
  rw [Option.bind_eq_some_iff]
  constructor
  · rintro ⟨named, same, read⟩
    obtain ⟨value, stops⟩ := configOf_eq_some_iff.mp read
    rw [named_eq_some_iff] at same
    subst same
    exact ⟨exists_ofTexts_iff.mp ⟨_, rfl⟩, fun p => optional_ofTexts_iff.mp (value p),
      optional_ofTexts_iff.mp stops⟩
  · intro laid
    obtain ⟨named, rfl⟩ := exists_ofTexts_iff.mpr laid.texts
    exact ⟨named, named_eq_some_iff.mpr rfl, configOf_eq_some_iff.mpr
      ⟨fun p => optional_ofTexts_iff.mpr (laid.value p), optional_ofTexts_iff.mpr laid.stops⟩⟩

theorem ofText?_eq {text : String} {v : Json} (spelled : v.SpelledBy text) :
    Config.ofText? text = toConfig? v := by
  rw [Config.ofText?, parse_eq_some_iff.mpr spelled]
  rfl

/-! ## The shapes of values -/

/-- A number in the range of a double. -/
def IsNumber (v : Json) : Prop :=
  ∃ n : Numeral, v = .number n ∧ n.toFloat?.isSome

/-- Two numbers in a row, or one under each of the names `x` and `y`. -/
inductive IsPoint : Json → Prop
  | row {x y : Json} (hx : x.IsNumber) (hy : y.IsNumber) : IsPoint (.array [x, y])
  | record {members : List (Option String × Json)} {x y : Json} (texts : ∀ m ∈ members, m.1 ≠ none)
      (onlyX : membersNamed "x" members = [(some "x", x)])
      (onlyY : membersNamed "y" members = [(some "y", y)]) (hx : x.IsNumber) (hy : y.IsNumber) :
      IsPoint (.object members)

/-- A list of points. -/
def IsRoute (v : Json) : Prop :=
  ∃ items, v = .array items ∧ ∀ item ∈ items, item.IsPoint

theorem toFloat?_isSome_iff (v : Json) : (toFloat? v).isSome ↔ v.IsNumber := by
  cases v <;> simp [toFloat?, IsNumber]

theorem pair?_object_iff {first second : String} {a b : β} :
    pair? first second read (.object members) = some (a, b) ↔ (∀ m ∈ members, m.1 ≠ none) ∧
      (∃ v, membersNamed first members = [(some first, v)] ∧ read v = some a) ∧
        ∃ v, membersNamed second members = [(some second, v)] ∧ read v = some b := by
  have read_eq : pair? first second read (.object members) = (named members).bind fun named =>
      ((member? first named).bind (required read)).bind fun a =>
        ((member? second named).bind (required read)).bind fun b => some (a, b) := by
    simp only [Option.bind_assoc]
    rfl
  rw [read_eq, ← exists_ofTexts_iff, Option.bind_eq_some_iff]
  simp only [named_eq_some_iff]
  constructor
  · rintro ⟨named, rfl, read⟩
    obtain ⟨a, hx, read⟩ := Option.bind_eq_some_iff.mp read
    obtain ⟨b, hy, same⟩ := Option.bind_eq_some_iff.mp read
    cases same
    exact ⟨⟨named, rfl⟩, required_ofTexts_iff.mp hx, required_ofTexts_iff.mp hy⟩
  · rintro ⟨⟨named, rfl⟩, hx, hy⟩
    refine ⟨named, rfl, ?_⟩
    rw [required_ofTexts_iff.mpr hx, Option.bind_some, required_ofTexts_iff.mpr hy,
      Option.bind_some]

theorem pair?_array_iff {first second : String} {items : List Json} {a b : β} :
    pair? first second read (.array items) = some (a, b) ↔
      ∃ v w, items = [v, w] ∧ read v = some a ∧ read w = some b := by
  match items with
  | [v, w] =>
    change ((read v).bind fun a => (read w).bind fun b => some (a, b)) = some (a, b) ↔ _
    simp [Option.bind_eq_some_iff]
  | [] | [_] | _ :: _ :: _ :: _ => simp [pair?]

theorem toPoint?_isSome_iff (v : Json) : (toPoint? v).isSome ↔ v.IsPoint := by
  rw [toPoint?, Option.isSome_map, Option.isSome_iff_exists, Prod.exists]
  constructor
  · rintro ⟨x, y, read⟩
    cases v with
    | array items =>
      obtain ⟨v, w, rfl, hx, hy⟩ := pair?_array_iff.mp read
      exact .row ((toFloat?_isSome_iff v).mp (hx ▸ rfl)) ((toFloat?_isSome_iff w).mp (hy ▸ rfl))
    | object members =>
      obtain ⟨texts, ⟨v, onlyX, hx⟩, w, onlyY, hy⟩ := pair?_object_iff.mp read
      exact .record texts onlyX onlyY ((toFloat?_isSome_iff v).mp (hx ▸ rfl))
        ((toFloat?_isSome_iff w).mp (hy ▸ rfl))
    | _ => cases read
  · intro point
    cases point with
    | row hx hy =>
      obtain ⟨x, hx⟩ := Option.isSome_iff_exists.mp ((toFloat?_isSome_iff _).mpr hx)
      obtain ⟨y, hy⟩ := Option.isSome_iff_exists.mp ((toFloat?_isSome_iff _).mpr hy)
      exact ⟨x, y, pair?_array_iff.mpr ⟨_, _, rfl, hx, hy⟩⟩
    | record texts onlyX onlyY hx hy =>
      obtain ⟨x, hx⟩ := Option.isSome_iff_exists.mp ((toFloat?_isSome_iff _).mpr hx)
      obtain ⟨y, hy⟩ := Option.isSome_iff_exists.mp ((toFloat?_isSome_iff _).mpr hy)
      exact ⟨x, y, pair?_object_iff.mpr ⟨texts, ⟨_, onlyX, hx⟩, _, onlyY, hy⟩⟩

theorem toStops?_isSome_iff (v : Json) : (toStops? v).isSome ↔ v.IsRoute := by
  have all (items : List Json) :
      (items.mapM toPoint?).isSome ↔ ∀ item ∈ items, (toPoint? item).isSome := by
    induction items with
    | nil => simp
    | cons item items ih =>
      rw [List.forall_mem_cons, ← ih, List.mapM_cons]
      cases toPoint? item <;> cases items.mapM toPoint? <;> simp
  cases v <;> simp [toStops?, IsRoute, all, toPoint?_isSome_iff]

/-! ## Rows of fields -/

/-- In a row of values, each under the next of some names, a name has the value in its place. -/
theorem filter_zip (names : List String) (items : List Json) (distinct : names.Nodup)
    (mem : name ∈ names) :
    (names.zip items).filter (·.1 = name) = (items[names.idxOf name]?.map (name, ·)).toList := by
  induction names generalizing items with
  | nil => cases mem
  | cons n names ih =>
    obtain ⟨fresh, distinct⟩ := List.nodup_cons.mp distinct
    cases items with
    | nil => simp
    | cons v items =>
      by_cases here : n = name
      · subst here
        have later : (names.zip items).filter (·.1 = n) = [] := by
          refine List.filter_eq_nil_iff.mpr fun m mem same => ?_
          rw [decide_eq_true_eq] at same
          exact fresh (same ▸ (List.of_mem_zip mem).1)
        simp [later]
      · have there := List.mem_of_ne_of_mem (Ne.symm here) mem
        simp [List.idxOf_cons_ne _ here, here, ih items distinct there]

theorem member?_zip (items : List Json) {names : List String} (distinct : names.Nodup)
    (mem : name ∈ names) : member? name (names.zip items) = some items[names.idxOf name]? := by
  rw [member?, filter_zip names items distinct mem]
  cases items[names.idxOf name]? <;> rfl

/-- A row of values reads as the object that names them in the order of the fields. -/
theorem toConfig?_array (items : List Json) :
    toConfig? (.array items) =
      if items.length ≤ fieldNames.length then toConfig? (.object (ofTexts (fieldNames.zip items)))
      else none := by
  have distinct : fieldNames.Nodup := by decide
  have parameter (p : Parameter) :
      member? p.name (fieldNames.zip items) = some items[Parameter.all.idxOf p]? := by
    have place : fieldNames.idxOf p.name = Parameter.all.idxOf p := by cases p <;> decide
    rw [member?_zip items distinct (parameter_name_mem p), place]
  have stops : member? stopsName (fieldNames.zip items) = some items[Parameter.all.length]? :=
    member?_zip items distinct stopsName_mem
  have texts : named (ofTexts (fieldNames.zip items)) = some (fieldNames.zip items) :=
    named_eq_some_iff.mpr rfl
  change (if items.length ≤ fieldNames.length then _ else none) = _
  congr 1
  change _ = (named (ofTexts (fieldNames.zip items))).bind fun named =>
    configOf (fun p => member? p.name named) (member? stopsName named)
  rw [texts, Option.bind_some, funext parameter, stops]

/-! ## What counts of an object -/

/-- The members that have the name of a field. -/
def fieldMembers (members : List (Option String × Json)) : List (Option String × Json) :=
  members.filter fun m => m.1 ∈ fieldNames.map some

theorem membersNamed_fieldMembers (mem : name ∈ fieldNames)
    (members : List (Option String × Json)) :
    membersNamed name (fieldMembers members) = membersNamed name members := by
  rw [membersNamed, membersNamed, fieldMembers, List.filter_filter]
  refine List.filter_congr fun m _ => ?_
  by_cases same : m.1 = some name
  · simp [same, mem]
  · simp [same]

/-- Members of other names and the order of the members do not matter to a field. -/
theorem gets_iff_of_perm (same : (fieldMembers members').Perm (fieldMembers members))
    (mem : name ∈ fieldNames) :
    Gets read own name members' b ↔ Gets read own name members b := by
  have perm : (membersNamed name members').Perm (membersNamed name members) := by
    rw [← membersNamed_fieldMembers mem members, ← membersNamed_fieldMembers mem members']
    exact same.filter _
  have none : membersNamed name members' = [] ↔ membersNamed name members = [] := by
    constructor <;> intro h <;> rw [h] at perm
    · exact perm.nil_eq.symm
    · exact perm.eq_nil
  have one (m : Option String × Json) :
      membersNamed name members' = [m] ↔ membersNamed name members = [m] := by
    constructor <;> intro h <;> rw [h] at perm
    · exact perm.singleton_eq.symm
    · exact perm.eq_singleton
  simp only [gets_iff, none, one]

theorem overlay_iff_of_perm (same : (fieldMembers members').Perm (fieldMembers members))
    (texts : ∀ m ∈ members, m.1 ≠ none) (texts' : ∀ m ∈ members', m.1 ≠ none) {c : Config Float} :
    Overlay members' c ↔ Overlay members c := by
  constructor
  · intro laid
    exact ⟨texts, fun p => (gets_iff_of_perm same (parameter_name_mem p)).mp (laid.value p),
      (gets_iff_of_perm same stopsName_mem).mp laid.stops⟩
  · intro laid
    exact ⟨texts', fun p => (gets_iff_of_perm same (parameter_name_mem p)).mpr (laid.value p),
      (gets_iff_of_perm same stopsName_mem).mpr laid.stops⟩

/-- Nothing is laid over the shipped configuration if a name is no text, or if a
field gets nothing. -/
theorem not_overlay_iff :
    (¬ ∃ c, Overlay members c) ↔ (∃ m ∈ members, m.1 = none) ∨
      (∃ p : Parameter, ¬ ∃ x, Gets toFloat? (Config.shipped.value p) p.name members x) ∨
        ¬ ∃ stops, Gets toStops? Config.shippedStops stopsName members stops := by
  constructor
  · intro refused
    by_contra! all
    obtain ⟨texts, value, route, stops⟩ := all
    choose value read using value
    refine refused ⟨Config.ofValues value route, texts, fun p => ?_, stops⟩
    rw [Config.value_ofValues]
    exact read p
  · rintro (⟨m, mem, none⟩ | ⟨p, nothing⟩ | nothing) ⟨c, laid⟩
    · exact laid.texts m mem none
    · exact nothing ⟨_, laid.value p⟩
    · exact nothing ⟨_, laid.stops⟩

/-- An object is refused exactly if a name is no text, a field stands twice, or a value has another
shape than its field. -/
theorem toConfig?_object_eq_none_iff :
    toConfig? (.object members) = none ↔ (∃ m ∈ members, m.1 = none) ∨
      (∃ name ∈ fieldNames, 1 < members.countP (·.1 = some name)) ∨
      (∃ (p : Parameter) (v : Json), (some p.name, v) ∈ members ∧ ¬ v.IsNumber) ∨
      ∃ v : Json, (some stopsName, v) ∈ members ∧ ¬ v.IsRoute := by
  have number (v : Json) : toFloat? v = none ↔ ¬ v.IsNumber := by
    rw [← toFloat?_isSome_iff, Option.not_isSome_iff_eq_none]
  have route (v : Json) : toStops? v = none ↔ ¬ v.IsRoute := by
    rw [← toStops?_isSome_iff, Option.not_isSome_iff_eq_none]
  rw [Option.eq_none_iff_forall_ne_some]
  simp only [ne_eq, toConfig?_object_iff]
  rw [← not_exists, not_overlay_iff, exists_fieldNames_iff]
  simp only [not_gets_iff, number, route, exists_or]
  refine or_congr_right ?_
  rw [or_assoc, or_or_or_comm, or_assoc]

end Json

namespace Config

open Json

/-- A text that spells an object reads as what the members of the object lay over the shipped
configuration. It is refused exactly if the name of a member is no text, if the name of a
field stands twice, or if the value of a field has another shape than the field. No other text
reads differently whose members of the names of fields are the same in some order. A row of
values reads as the object that names them in the order of the fields, unless there are more
values than fields. -/
theorem text_overlays_shipped {text : String} {members : List (Option String × Json)}
    (spelled : (Json.object members).SpelledBy text) :
    (∀ c, ofText? text = some c ↔ Overlay members c) ∧
    (ofText? text = none ↔ (∃ m ∈ members, m.1 = none) ∨
      (∃ name ∈ fieldNames, 1 < members.countP (·.1 = some name)) ∨
      (∃ (p : Parameter) (v : Json), (some p.name, v) ∈ members ∧ ¬ v.IsNumber) ∨
      ∃ v : Json, (some stopsName, v) ∈ members ∧ ¬ v.IsRoute) ∧
    (∀ text' members', (Json.object members').SpelledBy text' → (∀ m ∈ members, m.1 ≠ none) →
      (∀ m ∈ members', m.1 ≠ none) → (fieldMembers members').Perm (fieldMembers members) →
        ofText? text' = ofText? text) ∧
    ∀ text' items, (Json.array items).SpelledBy text' →
      (items.length ≤ fieldNames.length →
        (∀ c, ofText? text' = some c ↔ Overlay (ofTexts (fieldNames.zip items)) c) ∧
        (members = ofTexts (fieldNames.zip items) → ofText? text' = ofText? text)) ∧
      (fieldNames.length < items.length → ofText? text' = none) := by
  rw [ofText?_eq spelled]
  refine ⟨fun c => toConfig?_object_iff, ?_, ?_, ?_⟩
  · exact toConfig?_object_eq_none_iff
  · intro text' members' spelled' texts texts' same
    rw [ofText?_eq spelled']
    refine Option.ext fun c => ?_
    rw [toConfig?_object_iff, toConfig?_object_iff]
    exact overlay_iff_of_perm same texts texts'
  · intro text' items spelled'
    rw [ofText?_eq spelled', toConfig?_array]
    refine ⟨fun fits => ?_, fun long => ?_⟩
    · rw [if_pos fits]
      refine ⟨fun c => toConfig?_object_iff, fun same => ?_⟩
      rw [same]
    · exact if_neg (Nat.not_le.mpr long)

/-- Two fields of an object: in the other order with a member of no field between them, as a row,
and as a row that is too long. -/
theorem two_fields_laid_over :
    ofText?
        "\x7b\"name\":[\x7b\x7d],\"arena_height\":2,\"speed\":\"\\ud800\",\"arena_width\":1.5\x7d" =
        ofText? "\x7b\"arena_width\":1.5, \"arena_height\":2\x7d" ∧
      ofText? "[1.5,2]" = ofText? "\x7b\"arena_width\":1.5, \"arena_height\":2\x7d" ∧
        ofText? "[1.5,2,3,4,5,6,7,8,9,[],0]" = none := by
  let number (n : Nat) : Json := .number ⟨false, [n], [], none⟩
  let width : Json := .number ⟨false, [1], [5], none⟩
  obtain ⟨-, -, same, row⟩ := @text_overlays_shipped
    "\x7b\"arena_width\":1.5, \"arena_height\":2\x7d"
    [(some "arena_width", width), (some "arena_height", number 2)] (by decide +kernel)
  refine ⟨same _ [(some "name", .array [.object []]), (some "arena_height", number 2),
    (some "speed", .string none), (some "arena_width", width)] (by decide +kernel) (by decide)
    (by decide) ?_, ?_, ?_⟩
  · exact List.Perm.swap _ _ _
  · exact ((row _ [width, number 2] (by decide +kernel)).1 (by decide)).2 rfl
  · exact (row _ [width, number 2, number 3, number 4, number 5, number 6, number 7, number 8,
      number 9, .array [], number 0] (by decide +kernel)).2 (by decide)

/-- A member that is no field counts all the same if its name is half of a surrogate pair. -/
theorem lone_surrogate_refused :
    (Json.object []).SpelledBy "\x7b\x7d" ∧
      (Json.object [(none, .null)]).SpelledBy "\x7b\"\\ud800\":null\x7d" ∧
      fieldMembers [(none, .null)] = [] ∧ (ofText? "\x7b\x7d").isSome ∧
        ofText? "\x7b\"\\ud800\":null\x7d" = none := by
  decide +kernel

end Config

end ArenaAgent
