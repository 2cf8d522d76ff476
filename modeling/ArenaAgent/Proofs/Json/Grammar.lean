import ArenaAgent.Json.Value

/-!
The grammar of JSON values, token by token. Every value has one row of tokens (`Json.tokens`), and a
text reads as a value exactly if its tokens are that row (`parse_eq_some_iff`).
-/
namespace ArenaAgent.Json

/-! ## The tokens of a value -/

mutual

/-- The tokens that spell a value. -/
def tokens : Json → List Token
  | .null => [.null]
  | .bool b => [.bool b]
  | .number n => [.number n]
  | .string text => [.string text]
  | .array items => .openArray :: (itemTokens items ++ [.closeArray])
  | .object members => .openObject :: (memberTokens members ++ [.closeObject])

/-- Items with commas between them. -/
def itemTokens : List Json → List Token
  | [] => []
  | v :: items => v.tokens ++ laterItemTokens items

/-- Items with a comma before each. -/
def laterItemTokens : List Json → List Token
  | [] => []
  | v :: items => .comma :: (v.tokens ++ laterItemTokens items)

/-- Members with commas between them. -/
def memberTokens : List (Option String × Json) → List Token
  | [] => []
  | m :: members => namedTokens m ++ laterMemberTokens members

/-- Members with a comma before each. -/
def laterMemberTokens : List (Option String × Json) → List Token
  | [] => []
  | m :: members => .comma :: (namedTokens m ++ laterMemberTokens members)

/-- A name, a colon and a value. -/
def namedTokens : Option String × Json → List Token
  | (name, v) => .string name :: .colon :: v.tokens

end

/-! ## Values are read from their tokens -/

open Assembly

/-- What becomes of an assembly over a row of tokens. -/
def Assembly.run (a : Assembly) (ts : List Token) : Option Assembly :=
  ts.foldlM Assembly.step a

theorem Assembly.run_cons (a : Assembly) (t : Token) (ts : List Token) :
    a.run (t :: ts) = (a.step t).bind fun a => a.run ts :=
  rfl

theorem Assembly.run_append (a : Assembly) (ts us : List Token) :
    a.run (ts ++ us) = (a.run ts).bind fun a => a.run us := by
  rw [run, List.foldlM_append]
  rfl

/-- A value may stand first in an array. -/
theorem run_firstItem (v : Json) (stack : List Container) (ts : List Token) :
    Assembly.run ⟨stack, .firstItem⟩ (v.tokens ++ ts) =
      Assembly.run ⟨stack, .value⟩ (v.tokens ++ ts) := by
  cases v <;> rfl

/-- A name may stand first in an object. -/
theorem run_firstName (m : Option String × Json) (stack : List Container) (ts : List Token) :
    Assembly.run ⟨stack, .firstName⟩ (namedTokens m ++ ts) =
      Assembly.run ⟨stack, .name⟩ (namedTokens m ++ ts) := by
  cases m
  rfl

mutual

theorem run_tokens (v : Json) (stack : List Container) :
    Assembly.run ⟨stack, .value⟩ v.tokens = put v stack := by
  cases v with
  | null | bool | number | string =>
    rw [tokens, run_cons]
    exact Option.bind_fun_some _
  | array items =>
    cases items with
    | nil =>
      rw [tokens, run_cons]
      exact Option.bind_fun_some _
    | cons v items =>
      have first : put v (.array [] :: stack) = some ⟨.array [v] :: stack, .separator⟩ := rfl
      have last : Assembly.run ⟨.array (items.reverse ++ [v]) :: stack, .separator⟩ [.closeArray] =
          put (.array (items.reverse ++ [v]).reverse) stack := Option.bind_fun_some _
      rw [List.reverse_append, List.reverse_reverse] at last
      rw [tokens, run_cons]
      change Assembly.run ⟨.array [] :: stack, .firstItem⟩
        (v.tokens ++ laterItemTokens items ++ [.closeArray]) = _
      rw [List.append_assoc, run_firstItem, run_append, run_tokens v, first,
        Option.bind_some, run_append, run_laterItemTokens items, Option.bind_some, last]
      rfl
  | object members =>
    cases members with
    | nil =>
      rw [tokens, run_cons]
      exact Option.bind_fun_some _
    | cons m members =>
      have last :
          Assembly.run ⟨.object (members.reverse ++ [m]) :: stack, .separator⟩ [.closeObject] =
          put (.object (members.reverse ++ [m]).reverse) stack := Option.bind_fun_some _
      rw [List.reverse_append, List.reverse_reverse] at last
      rw [tokens, run_cons]
      change Assembly.run ⟨.object [] :: stack, .firstName⟩
        (namedTokens m ++ laterMemberTokens members ++ [.closeObject]) = _
      rw [List.append_assoc, run_firstName, run_append, run_namedTokens m,
        Option.bind_some, run_append, run_laterMemberTokens members, Option.bind_some, last]
      rfl

theorem run_laterItemTokens (items done : List Json) (stack : List Container) :
    Assembly.run ⟨.array done :: stack, .separator⟩ (laterItemTokens items) =
      some ⟨.array (items.reverse ++ done) :: stack, .separator⟩ := by
  cases items with
  | nil => rfl
  | cons v items =>
    have first : put v (.array done :: stack) = some ⟨.array (v :: done) :: stack, .separator⟩ :=
      rfl
    rw [laterItemTokens, run_cons]
    change Assembly.run ⟨.array done :: stack, .value⟩ (v.tokens ++ laterItemTokens items) = _
    rw [run_append, run_tokens v, first, Option.bind_some, run_laterItemTokens items,
      List.reverse_cons, List.append_assoc]
    rfl

theorem run_namedTokens (m : Option String × Json) (done : List (Option String × Json))
    (stack : List Container) :
    Assembly.run ⟨.object done :: stack, .name⟩ (namedTokens m) =
      some ⟨.object (m :: done) :: stack, .separator⟩ := by
  cases m with
  | mk name v =>
    rw [namedTokens, run_cons]
    change Assembly.run ⟨.member name done :: stack, .colon⟩ (.colon :: v.tokens) = _
    rw [run_cons]
    change Assembly.run ⟨.member name done :: stack, .value⟩ v.tokens = _
    rw [run_tokens v]
    rfl

theorem run_laterMemberTokens (members done : List (Option String × Json))
    (stack : List Container) :
    Assembly.run ⟨.object done :: stack, .separator⟩ (laterMemberTokens members) =
      some ⟨.object (members.reverse ++ done) :: stack, .separator⟩ := by
  cases members with
  | nil => rfl
  | cons m members =>
    rw [laterMemberTokens, run_cons]
    change Assembly.run ⟨.object done :: stack, .name⟩
      (namedTokens m ++ laterMemberTokens members) = _
    rw [run_append, run_namedTokens m, Option.bind_some, run_laterMemberTokens members,
      List.reverse_cons, List.append_assoc]
    rfl

end

theorem ofTokens_tokens (v : Json) : ofTokens v.tokens = some v := by
  change (Assembly.run start v.tokens).bind Assembly.result = some v
  rw [start, run_tokens]
  rfl

/-! ## Nothing else is read -/

/-- Items with a comma after each. -/
def earlierItemTokens (items : List Json) : List Token :=
  items.flatMap fun v => v.tokens ++ [.comma]

/-- Members with a comma after each. -/
def earlierMemberTokens (members : List (Option String × Json)) : List Token :=
  members.flatMap fun m => namedTokens m ++ [.comma]

theorem itemTokens_append (items : List Json) (v : Json) :
    itemTokens (items ++ [v]) = earlierItemTokens items ++ v.tokens := by
  have later (items : List Json) :
      laterItemTokens (items ++ [v]) = .comma :: (earlierItemTokens items ++ v.tokens) := by
    induction items with
    | nil => simp [laterItemTokens, earlierItemTokens]
    | cons w items ih => simp [laterItemTokens, earlierItemTokens, ih]
  cases items with
  | nil => simp [itemTokens, laterItemTokens, earlierItemTokens]
  | cons w items => simp [itemTokens, later, earlierItemTokens]

theorem memberTokens_append (members : List (Option String × Json)) (m : Option String × Json) :
    memberTokens (members ++ [m]) = earlierMemberTokens members ++ namedTokens m := by
  have later (members : List (Option String × Json)) :
      laterMemberTokens (members ++ [m]) =
        .comma :: (earlierMemberTokens members ++ namedTokens m) := by
    induction members with
    | nil => simp [laterMemberTokens, earlierMemberTokens]
    | cons n members ih => simp [laterMemberTokens, earlierMemberTokens, ih]
  cases members with
  | nil => simp [memberTokens, laterMemberTokens, earlierMemberTokens]
  | cons n members => simp [memberTokens, later, earlierMemberTokens]

theorem earlierItemTokens_append (items : List Json) (v : Json) :
    earlierItemTokens (items ++ [v]) = itemTokens (items ++ [v]) ++ [.comma] := by
  rw [itemTokens_append, earlierItemTokens, List.flatMap_append]
  simp [earlierItemTokens]

theorem earlierMemberTokens_append (members : List (Option String × Json))
    (m : Option String × Json) :
    earlierMemberTokens (members ++ [m]) = memberTokens (members ++ [m]) ++ [.comma] := by
  rw [memberTokens_append, earlierMemberTokens, List.flatMap_append]
  simp [earlierMemberTokens]

/-- The tokens that led to these open containers, in the innermost of which a value comes next. -/
inductive Awaits : List Container → List Token → Prop
  | nothing : Awaits [] []
  | item {items : List Json} {stack : List Container} {ts : List Token} (h : Awaits stack ts) :
      Awaits (.array items :: stack) (ts ++ .openArray :: earlierItemTokens items.reverse)
  | member {name : Option String} {members : List (Option String × Json)} {stack : List Container}
      {ts : List Token} (h : Awaits stack ts) :
      Awaits (.member name members :: stack)
        (ts ++ .openObject :: (earlierMemberTokens members.reverse ++ [.string name, .colon]))

/-- The tokens that led to an assembly. -/
inductive Spells : Assembly → List Token → Prop
  | value {stack : List Container} {ts : List Token} (h : Awaits stack ts) :
      Spells ⟨stack, .value⟩ ts
  | firstItem {stack : List Container} {ts : List Token} (h : Awaits stack ts) :
      Spells ⟨.array [] :: stack, .firstItem⟩ (ts ++ [.openArray])
  | firstName {stack : List Container} {ts : List Token} (h : Awaits stack ts) :
      Spells ⟨.object [] :: stack, .firstName⟩ (ts ++ [.openObject])
  | name {members : List (Option String × Json)} {stack : List Container} {ts : List Token}
      (h : Awaits stack ts) :
      Spells ⟨.object members :: stack, .name⟩
        (ts ++ .openObject :: earlierMemberTokens members.reverse)
  | colon {name : Option String} {members : List (Option String × Json)} {stack : List Container}
      {ts : List Token} (h : Awaits stack ts) :
      Spells ⟨.member name members :: stack, .colon⟩
        (ts ++ .openObject :: (earlierMemberTokens members.reverse ++ [.string name]))
  | items {v : Json} {items : List Json} {stack : List Container} {ts : List Token}
      (h : Awaits stack ts) :
      Spells ⟨.array (v :: items) :: stack, .separator⟩
        (ts ++ .openArray :: itemTokens (items.reverse ++ [v]))
  | members {m : Option String × Json} {members : List (Option String × Json)}
      {stack : List Container} {ts : List Token} (h : Awaits stack ts) :
      Spells ⟨.object (m :: members) :: stack, .separator⟩
        (ts ++ .openObject :: memberTokens (members.reverse ++ [m]))
  | complete {v : Json} : Spells ⟨[], .complete v⟩ v.tokens

theorem Awaits.put {stack : List Container} {ts : List Token} (h : Awaits stack ts) {v : Json}
    {a : Assembly} (done : put v stack = some a) : Spells a (ts ++ v.tokens) := by
  cases h with
  | nothing =>
    cases done
    exact .complete
  | item h =>
    cases done
    rw [List.append_assoc, List.cons_append, ← itemTokens_append]
    exact .items h
  | member h =>
    cases done
    have named (name : Option String) :
        [.string name, .colon] ++ v.tokens = namedTokens (name, v) := rfl
    rw [List.append_assoc, List.cons_append, List.append_assoc, named, ← memberTokens_append]
    exact .members h

theorem Awaits.begin {stack : List Container} {ts : List Token} (h : Awaits stack ts) {t : Token}
    {a : Assembly} (done : begin stack t = some a) : Spells a (ts ++ [t]) := by
  cases t with
  | openObject =>
    cases done
    exact .firstName h
  | openArray =>
    cases done
    exact .firstItem h
  | null => exact h.put (v := .null) done
  | bool b => exact h.put (v := .bool b) done
  | number n => exact h.put (v := .number n) done
  | string text => exact h.put (v := .string text) done
  | _ => cases done

/-- A step reads one token. -/
theorem Spells.step {a a' : Assembly} {ts : List Token} (h : Spells a ts) {t : Token}
    (done : a.step t = some a') : Spells a' (ts ++ [t]) := by
  cases h with
  | value h => exact h.begin done
  | @firstItem stack ts h =>
    have awaits : Awaits (.array [] :: stack) (ts ++ [.openArray]) := .item h
    cases t with
    | closeArray =>
      rw [List.append_assoc]
      exact h.put (v := .array []) done
    | _ => exact awaits.begin done
  | @firstName stack ts h =>
    cases t with
    | closeObject =>
      rw [List.append_assoc]
      exact h.put (v := .object []) done
    | string text =>
      cases done
      rw [List.append_assoc]
      exact .colon h
    | _ => cases done
  | name h =>
    cases t with
    | string text =>
      cases done
      rw [List.append_assoc]
      exact .colon h
    | _ => cases done
  | colon h =>
    cases t with
    | colon =>
      cases done
      rw [List.append_assoc, List.cons_append, List.append_assoc]
      exact .value (.member h)
    | _ => cases done
  | @items v items stack ts h =>
    rw [List.append_assoc, List.cons_append]
    cases t with
    | comma =>
      cases done
      rw [← earlierItemTokens_append, ← List.reverse_cons]
      exact .value (.item h)
    | closeArray =>
      rw [← List.reverse_cons]
      exact h.put (v := .array (v :: items).reverse) done
    | _ => cases done
  | @members m members stack ts h =>
    rw [List.append_assoc, List.cons_append]
    cases t with
    | comma =>
      cases done
      rw [← earlierMemberTokens_append, ← List.reverse_cons]
      exact .name h
    | closeObject =>
      rw [← List.reverse_cons]
      exact h.put (v := .object (m :: members).reverse) done
    | _ => cases done
  | complete => cases done

theorem Spells.run {a a' : Assembly} {ts us : List Token} (h : Spells a ts)
    (done : a.run us = some a') : Spells a' (ts ++ us) := by
  induction us generalizing a ts with
  | nil =>
    cases done
    rw [List.append_nil]
    exact h
  | cons u us ih =>
    rw [run_cons, Option.bind_eq_some_iff] at done
    obtain ⟨a₁, first, rest⟩ := done
    have all := ih (h.step first) rest
    rwa [List.append_assoc] at all

/-- Tokens read as a value exactly if they are the tokens of the value. -/
theorem ofTokens_eq_some_iff {ts : List Token} {v : Json} :
    ofTokens ts = some v ↔ ts = v.tokens := by
  constructor
  · intro h
    obtain ⟨a, done, complete⟩ := Option.bind_eq_some_iff.mp h
    have spelled := Spells.run (.value .nothing) (a := start) done
    cases spelled with
    | complete =>
      cases complete
      rfl
    | _ => cases complete
  · rintro rfl
    exact ofTokens_tokens v

/-- The text consists of the tokens of the value, with any blanks between them. -/
def SpelledBy (v : Json) (text : String) : Prop :=
  lex text.toList = some v.tokens

instance (v : Json) (text : String) : Decidable (v.SpelledBy text) :=
  inferInstanceAs (Decidable (_ = _))

/-- A text reads as a value exactly if it spells it. -/
theorem parse_eq_some_iff {text : String} {v : Json} : parse text = some v ↔ v.SpelledBy text := by
  rw [parse, SpelledBy, Option.bind_eq_some_iff]
  constructor
  · rintro ⟨ts, lexed, read⟩
    rw [lexed, ofTokens_eq_some_iff.mp read]
  · intro lexed
    exact ⟨_, lexed, ofTokens_tokens v⟩

end ArenaAgent.Json
