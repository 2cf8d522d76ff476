import ArenaAgent.Proofs.Json.Grammar
import ArenaAgent.Proofs.Json.Numerals

/-!
What is written is read again. The texts of numbers, names, objects and arrays are cut into the
tokens that they were written for, so each text spells its value (`Prints.spelledBy`).
-/
namespace ArenaAgent.Json

open ArenaAgent.Binary64

/-! ## Cutting characters into tokens -/

/-- The tokens into which characters without blanks between tokens are cut. -/
inductive Cuts : List Char → List Token → Prop
  | nil : Cuts [] []
  | cons {c : Char} {cs rest : List Char} {t : Token} {ts : List Token} (solid : isBlank c = false)
      (first : token (c :: cs) = some (t, rest)) (shorter : rest.length ≤ cs.length)
      (later : Cuts rest ts) : Cuts (c :: cs) (t :: ts)

theorem Cuts.lexFrom {cs : List Char} {ts : List Token} (h : Cuts cs ts) {fuel : ℕ}
    (enough : cs.length ≤ fuel) (read : List Token) :
    Json.lexFrom fuel read cs = some (read.reverse ++ ts) := by
  induction h generalizing fuel read with
  | nil => rw [Json.lexFrom, List.append_nil]
  | cons solid first shorter later ih =>
    rw [List.length_cons] at enough
    obtain ⟨fuel, rfl⟩ := Nat.exists_eq_add_one_of_ne_zero (by omega : fuel ≠ 0)
    rw [Json.lexFrom, solid, first]
    simp only [Bool.false_eq_true, if_false]
    rw [ih (by omega), List.reverse_cons, List.append_assoc, List.singleton_append]

theorem Cuts.lex {cs : List Char} {ts : List Token} (h : Cuts cs ts) : Json.lex cs = some ts :=
  h.lexFrom (le_refl _) []

/-- A text that is cut into these tokens, whatever stands behind it that does not go
on with a number. -/
def Prints (text : String) (us : List Token) : Prop :=
  ∀ rest ts, Stops rest → Cuts rest ts → Cuts (text.toList ++ rest) (us ++ ts)

theorem Prints.spelledBy {text : String} {v : Json} (h : Prints text v.tokens) :
    v.SpelledBy text := by
  have cut := h [] [] nofun .nil
  rw [List.append_nil, List.append_nil] at cut
  exact cut.lex

/-! ## Numbers and names -/

theorem Writes.prints {text : String} {n : Numeral} (h : Writes text n) :
    Prints text (Json.number n).tokens := by
  intro rest ts stops later
  have first := h.token stops
  obtain ⟨c, cs, start, solid⟩ := h.start
  rw [start, List.cons_append] at first ⊢
  exact .cons solid first (by simp) later

/-- Characters that stand for themselves in a string. -/
def Plain (name : String) : Prop :=
  ∀ c ∈ name.toList, c ≠ '"' ∧ c ≠ '\\' ∧ ¬ c < ' '

theorem stringBody_plain {cs : List Char} (plain : ∀ c ∈ cs, c ≠ '"' ∧ c ≠ '\\' ∧ ¬ c < ' ')
    (read : List Piece) (rest : List Char) :
    stringBody read (cs ++ '"' :: rest) = some (read.reverse ++ cs.map .char, rest) := by
  induction cs generalizing read with
  | nil => rw [List.nil_append, stringBody, List.map_nil, List.append_nil]
  | cons c cs ih =>
    obtain ⟨⟨quote, slash, control⟩, plain⟩ := List.forall_mem_cons.mp plain
    rw [List.cons_append, stringBody, if_neg control, ih plain]
    · simp
    all_goals simp [quote, slash]

theorem join_plain (cs done : List Char) :
    join done (cs.map .char) = some (done.reverse ++ cs) := by
  induction cs generalizing done with
  | nil => simp [join]
  | cons c cs ih => simp [join, ih]

theorem cuts_name {name : String} (plain : Plain name) {rest : List Char} {ts : List Token}
    (later : Cuts rest ts) :
    Cuts ('"' :: (name.toList ++ '"' :: rest)) (.string (some name) :: ts) := by
  have text : textOf (name.toList.map .char) = some name := by
    rw [textOf, join_plain]
    simp
  have first : token ('"' :: (name.toList ++ '"' :: rest)) = some (.string (some name), rest) := by
    change (stringBody [] (name.toList ++ '"' :: rest)).map _ = _
    rw [stringBody_plain plain]
    simp [text]
  exact .cons rfl first (by simp; omega) later

theorem prints_name {name : String} (plain : Plain name) :
    Prints ("\"" ++ name ++ "\"") (Json.string (some name)).tokens := by
  intro rest ts _ later
  have cut := cuts_name plain later
  simpa [tokens] using cut

/-! ## Rows -/

/-- Rows of tokens with commas between them. -/
def commaSeparated : List (List Token) → List Token
  | [] => []
  | us :: rows => us ++ rows.flatMap (.comma :: ·)

theorem itemTokens_eq (items : List Json) :
    itemTokens items = commaSeparated (items.map tokens) := by
  have later (items : List Json) :
      laterItemTokens items = (items.map tokens).flatMap (.comma :: ·) := by
    induction items with
    | nil => rfl
    | cons v items ih => simp [laterItemTokens, ih]
  cases items with
  | nil => rfl
  | cons v items => simp [itemTokens, commaSeparated, later]

theorem memberTokens_eq (members : List (Option String × Json)) :
    memberTokens members = commaSeparated (members.map namedTokens) := by
  have later (members : List (Option String × Json)) :
      laterMemberTokens members = (members.map namedTokens).flatMap (.comma :: ·) := by
    induction members with
    | nil => rfl
    | cons m members ih => simp [laterMemberTokens, ih]
  cases members with
  | nil => rfl
  | cons m members => simp [memberTokens, commaSeparated, later]

/-- A mark stops numbers. -/
theorem stops_mark {c : Char} (mark : c = ',' ∨ c = '}' ∨ c = ']') (rest : List Char) :
    Stops (c :: rest) := by
  intro d same
  cases same
  rcases mark with rfl | rfl | rfl <;> decide

theorem prints_row (pieces : List (String × List Token))
    (prints : ∀ piece ∈ pieces, Prints piece.1 piece.2) :
    Prints (",".intercalate (pieces.map Prod.fst)) (commaSeparated (pieces.map Prod.snd)) := by
  intro rest ts stops later
  induction pieces with
  | nil => simpa [commaSeparated] using later
  | cons piece pieces ih =>
    obtain ⟨first, prints⟩ := List.forall_mem_cons.mp prints
    cases pieces with
    | nil => simpa [commaSeparated] using first rest ts stops later
    | cons piece' pieces =>
      have comma :
          Cuts (',' :: ((",".intercalate ((piece' :: pieces).map Prod.fst)).toList ++ rest))
          (.comma :: (commaSeparated ((piece' :: pieces).map Prod.snd) ++ ts)) :=
        .cons rfl rfl (le_refl _) (ih prints)
      simpa [commaSeparated] using first _ _ (stops_mark (.inl rfl) _) comma

theorem prints_array {items : List (String × Json)}
    (prints : ∀ item ∈ items, Prints item.1 item.2.tokens) :
    Prints ("[" ++ ",".intercalate (items.map Prod.fst) ++ "]")
      (Json.array (items.map Prod.snd)).tokens := by
  intro rest ts _ later
  have row : Prints (",".intercalate (items.map Prod.fst)) (itemTokens (items.map Prod.snd)) := by
    have := prints_row (items.map fun item => (item.1, item.2.tokens))
      (List.forall_mem_map.mpr prints)
    simpa [itemTokens_eq, Function.comp_def] using this
  have inner := row (']' :: rest) (.closeArray :: ts) (stops_mark (.inr (.inr rfl)) _)
    (.cons rfl rfl (le_refl _) later)
  have all : Cuts ('[' :: _) (.openArray :: _) := .cons rfl rfl (le_refl _) inner
  simpa [tokens] using all

theorem prints_object {fields : List (String × String × Json)} (plain : ∀ f ∈ fields, Plain f.1)
    (prints : ∀ f ∈ fields, Prints f.2.1 f.2.2.tokens) :
    Prints (objectText (fields.map fun f => (f.1, f.2.1)))
      (Json.object (fields.map fun f => (some f.1, f.2.2))).tokens := by
  intro rest ts _ later
  have field (f : String × String × Json) (mem : f ∈ fields) :
      Prints ("\"" ++ f.1 ++ "\":" ++ f.2.1) (namedTokens (some f.1, f.2.2)) := by
    intro rest ts stops later
    have value := prints f mem rest ts stops later
    have cut := cuts_name (plain f mem) (.cons (c := ':') rfl rfl (le_refl _) value)
    simpa [namedTokens] using cut
  have row : Prints (",".intercalate (fields.map fun f => "\"" ++ f.1 ++ "\":" ++ f.2.1))
      (memberTokens (fields.map fun f => (some f.1, f.2.2))) := by
    have named := prints_row
      (fields.map fun f => ("\"" ++ f.1 ++ "\":" ++ f.2.1, namedTokens (some f.1, f.2.2)))
      (by
        intro piece mem
        obtain ⟨f, inside, rfl⟩ := List.mem_map.mp mem
        exact field f inside)
    rw [List.map_map, List.map_map] at named
    rw [memberTokens_eq, List.map_map]
    exact named
  have inner := row ('}' :: rest) (.closeObject :: ts) (stops_mark (.inr (.inl rfl)) _)
    (.cons rfl rfl (le_refl _) later)
  have all : Cuts ('{' :: _) (.openObject :: _) := .cons rfl rfl (le_refl _) inner
  simpa [tokens, objectText, Function.comp_def] using all

end ArenaAgent.Json
