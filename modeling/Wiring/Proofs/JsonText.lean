import Wiring.Json.Draft
import Wiring.Proofs.Numerals

/-!
The compact text of a value is read back as this value. The lexer finds the tokens of the value
in it, the tokens build a tree that is nowhere cut, and the tree settles if the value has room for
its nesting. Values with numbers are left out, since a literal is only read back if it is one.
-/
namespace Wiring.Json

/-- A value without numbers, in which at most `n` arrays and objects are open at once. -/
inductive Plain : Nat → Json → Prop
  | null {n : Nat} : Plain n .null
  | bool {n : Nat} (b : Bool) : Plain n (.bool b)
  | string {n : Nat} (s : String) : Plain n (.string s)
  | array {n : Nat} {items : List Json} (h : ∀ v ∈ items, Plain n v) : Plain (n + 1) (.array items)
  | object {n : Nat} {members : List (String × Json)} (h : ∀ m ∈ members, Plain n m.2) :
    Plain (n + 1) (.object members)

theorem plain_string_iff {n : Nat} {s : String} : Plain n (.string s) ↔ True :=
  iff_true_intro (.string s)

theorem plain_array_iff {n : Nat} {items : List Json} :
    Plain (n + 1) (.array items) ↔ ∀ v ∈ items, Plain n v := by
  refine ⟨fun h => ?_, .array⟩
  cases h with
  | array hitems => exact hitems

theorem plain_object_iff {n : Nat} {members : List (String × Json)} :
    Plain (n + 1) (.object members) ↔ ∀ m ∈ members, Plain n m.2 := by
  refine ⟨fun h => ?_, .object⟩
  cases h with
  | object hmembers => exact hmembers

mutual

/-- The tokens of the compact text of a value. -/
def tokenList : Json → List Token
  | null => [.null]
  | bool b => [.bool b]
  | number literal => [.number literal]
  | string s => [.string ⟨s, true⟩]
  | array items => .openArray :: itemTokens items ++ [.closeArray]
  | object members => .openObject :: memberTokens members ++ [.closeObject]

def itemTokens : List Json → List Token
  | [] => []
  | [v] => tokenList v
  | v :: vs => tokenList v ++ .comma :: itemTokens vs

def memberTokens : List (String × Json) → List Token
  | [] => []
  | [(name, v)] => .string ⟨name, true⟩ :: .colon :: tokenList v
  | (name, v) :: ms => .string ⟨name, true⟩ :: .colon :: tokenList v ++ .comma :: memberTokens ms

end

mutual

/-- The tree of a value, which is nowhere cut. -/
def draft : Json → Draft
  | null => .null
  | bool b => .bool b
  | number literal => .number literal
  | string s => .string ⟨s, true⟩
  | array items => .array (itemDrafts items) none
  | object members => .object (memberDrafts members) none

def itemDrafts : List Json → List Draft
  | [] => []
  | v :: vs => draft v :: itemDrafts vs

def memberDrafts : List (String × Json) → List (Quoted × Draft)
  | [] => []
  | (name, v) :: ms => (⟨name, true⟩, draft v) :: memberDrafts ms

end

section Lexing

open Lexer

/-- A control character is escaped by four digits. -/
theorem feed_unit {n : Nat} (hn : n < 32) (p : Partial) (ts : List Token) :
    (Text.Hex.padded 4 n).foldl feed ⟨.unit p [], ts⟩ = ⟨.string (p.pushUnit n), ts⟩ := by
  have hlength : (Text.Hex.padded 4 n).length = 4 :=
    Text.Hex.length_padded (Nat.lt_trans hn (by decide)) (by decide)
  have hvalue : Text.Hex.value? (Text.Hex.padded 4 n) = some n := Text.Hex.value?_padded 4 n
  have hsize : ∀ c ∈ Text.Hex.padded 4 n, c.utf8Size = 1 := by
    have hall : ∀ n < 32, ((Text.Hex.padded 4 n).all fun c => c.utf8Size = 1) = true := by decide
    simpa using hall n hn
  generalize Text.Hex.padded 4 n = ds at hlength hvalue hsize
  match ds, hlength with
  | [a, b, c, d], _ =>
    simp only [List.forall_mem_cons] at hsize
    obtain ⟨ha, hb, hc, hd, -⟩ := hsize
    simp [feed, feedUnit, ha, hb, hc, hd, hvalue]

/-- The escape of a character is read back as the character. -/
theorem feed_escape (c : Char) (cs : List Char) (ts : List Token) :
    (escape c).foldl feed ⟨.string { chars := cs }, ts⟩ =
      ⟨.string { chars := c :: cs }, ts⟩ := by
  unfold escape
  iterate 7
    split
    · next h =>
      subst h
      rfl
  split
  · next hcontrol =>
    have hn : c.toNat < 32 := hcontrol
    have hunit : Partial.pushUnit { chars := cs } c.toNat = { chars := c :: cs } := by
      have hlow : ¬ 0xdc00 ≤ c.toNat := by omega
      have hhigh : ¬ 0xd800 ≤ c.toNat := by omega
      simp [Partial.pushUnit, hlow, hhigh, Partial.push, Partial.settle, Char.ofNat_toNat]
    rw [List.foldl_append, ← hunit]
    exact feed_unit hn { chars := cs } ts
  · next hquote hbackslash _ _ _ _ _ hcontrol =>
    simp [feed, feedString, hquote, hbackslash, hcontrol, Partial.push, Partial.settle]

theorem feed_escapes (cs read : List Char) (ts : List Token) :
    (cs.flatMap escape).foldl feed ⟨.string { chars := read }, ts⟩ =
      ⟨.string { chars := cs.reverse ++ read }, ts⟩ := by
  induction cs generalizing read with
  | nil => rfl
  | cons c cs ih =>
    rw [List.flatMap_cons, List.foldl_append, feed_escape, ih]
    simp

/-- Quoted text is one token. -/
theorem feed_quote (s : String) (ts : List Token) :
    (quote s).foldl feed ⟨.idle, ts⟩ = ⟨.idle, .string ⟨s, true⟩ :: ts⟩ := by
  have hbody := feed_escapes s.toList [] ts
  rw [quote, List.cons_append, List.foldl_cons, List.foldl_append]
  have hopen : feed ⟨.idle, ts⟩ '"' = ⟨.string { chars := [] }, ts⟩ := rfl
  rw [hopen, hbody]
  simp [feed, feedString, emit, Partial.finish, Partial.settle]

/-- Between two tokens, the text of `v` is read as the tokens of `v`. -/
def Lexed (v : Json) : Prop :=
  ∀ ts, v.chars.foldl feed ⟨.idle, ts⟩ = ⟨.idle, v.tokenList.reverse ++ ts⟩

theorem feed_itemChars {vs : List Json} (h : ∀ v ∈ vs, Lexed v) (ts : List Token) :
    (itemChars vs).foldl feed ⟨.idle, ts⟩ = ⟨.idle, (itemTokens vs).reverse ++ ts⟩ := by
  have hcomma : ∀ ts, feed ⟨.idle, ts⟩ ',' = ⟨.idle, .comma :: ts⟩ := fun _ => rfl
  induction vs generalizing ts with
  | nil => rfl
  | cons v vs ih =>
    obtain ⟨hv, hrest⟩ := List.forall_mem_cons.mp h
    cases vs with
    | nil => exact hv ts
    | cons w ws =>
      have hchars : itemChars (v :: w :: ws) = v.chars ++ ',' :: itemChars (w :: ws) := rfl
      have htokens : itemTokens (v :: w :: ws) =
        v.tokenList ++ .comma :: itemTokens (w :: ws) := rfl
      rw [hchars, htokens, List.foldl_append, List.foldl_cons, hv, hcomma, ih hrest]
      simp

theorem feed_memberChars {ms : List (String × Json)} (h : ∀ m ∈ ms, Lexed m.2)
    (ts : List Token) :
    (memberChars ms).foldl feed ⟨.idle, ts⟩ = ⟨.idle, (memberTokens ms).reverse ++ ts⟩ := by
  have hcolon : ∀ ts, feed ⟨.idle, ts⟩ ':' = ⟨.idle, .colon :: ts⟩ := fun _ => rfl
  have hcomma : ∀ ts, feed ⟨.idle, ts⟩ ',' = ⟨.idle, .comma :: ts⟩ := fun _ => rfl
  induction ms generalizing ts with
  | nil => rfl
  | cons m ms ih =>
    obtain ⟨name, v⟩ := m
    obtain ⟨hv, hrest⟩ := List.forall_mem_cons.mp h
    have hv : Lexed v := hv
    cases ms with
    | nil =>
      rw [memberChars, memberTokens, List.foldl_append, List.foldl_cons, feed_quote, hcolon, hv]
      simp
    | cons m ms =>
      have hchars : memberChars ((name, v) :: m :: ms) =
        quote name ++ ':' :: v.chars ++ ',' :: memberChars (m :: ms) := rfl
      have htokens : memberTokens ((name, v) :: m :: ms) =
        .string ⟨name, true⟩ :: .colon :: v.tokenList ++ .comma :: memberTokens (m :: ms) := rfl
      rw [hchars, htokens, List.foldl_append, List.foldl_append, List.foldl_cons, List.foldl_cons,
        feed_quote, hcolon, hv, hcomma, ih hrest]
      simp

theorem Plain.lexed {n : Nat} {v : Json} (h : Plain n v) : Lexed v := by
  induction h with
  | null => exact fun ts => rfl
  | bool b => cases b <;> exact fun ts => rfl
  | string s => exact feed_quote s
  | array _ ih =>
    intro ts
    have hopen : feed ⟨.idle, ts⟩ '[' = ⟨.idle, .openArray :: ts⟩ := rfl
    have hclose : ∀ ts, feed ⟨.idle, ts⟩ ']' = ⟨.idle, .closeArray :: ts⟩ := fun _ => rfl
    rw [chars, tokenList, List.cons_append, List.foldl_cons, List.foldl_append, hopen,
      feed_itemChars ih, List.foldl_cons, hclose]
    simp
  | object _ ih =>
    intro ts
    have hopen : feed ⟨.idle, ts⟩ '\x7b' = ⟨.idle, .openObject :: ts⟩ := rfl
    have hclose : ∀ ts, feed ⟨.idle, ts⟩ '\x7d' = ⟨.idle, .closeObject :: ts⟩ := fun _ => rfl
    rw [chars, tokenList, List.cons_append, List.foldl_cons, List.foldl_append, hopen,
      feed_memberChars ih, List.foldl_cons, hclose]
    simp

theorem Plain.tokens_chars {n : Nat} {v : Json} (h : Plain n v) : tokens v.chars = v.tokenList := by
  have hlexed := h.lexed []
  rw [List.append_nil] at hlexed
  rw [tokens, hlexed]
  simp [finish]

end Lexing

section Parsing

open Expectation

/-- Where a value is expected, the tokens of `v` are taken as the tree of `v`. -/
def Parsed (v : Json) : Prop :=
  ∀ frames, v.tokenList.foldl take (.value frames) = afterValue v.draft frames

theorem take_itemTokens {v : Json} {vs : List Json} (h : ∀ w ∈ v :: vs, Parsed w)
    (items : List Draft) (frames : List Frame) :
    (itemTokens (v :: vs)).foldl take (.value (.array items :: frames)) =
      .afterItem ((itemDrafts (v :: vs)).reverse ++ items) frames := by
  induction vs generalizing v items with
  | nil => exact h v List.mem_cons_self (.array items :: frames)
  | cons w ws ih =>
    obtain ⟨hv, hrest⟩ := List.forall_mem_cons.mp h
    have htokens : itemTokens (v :: w :: ws) =
      v.tokenList ++ .comma :: itemTokens (w :: ws) := rfl
    have hcomma : take (afterValue v.draft (.array items :: frames)) .comma =
        .value (.array (v.draft :: items) :: frames) := rfl
    rw [htokens, List.foldl_append, hv, List.foldl_cons, hcomma, ih hrest]
    simp [itemDrafts]

theorem take_memberTokens {name : String} {v : Json} {ms : List (String × Json)} (hv : Parsed v)
    (h : ∀ m ∈ ms, Parsed m.2) (members : List (Quoted × Draft)) (frames : List Frame) :
    (memberTokens ((name, v) :: ms)).foldl take (.name members frames) =
      .afterMember ((memberDrafts ((name, v) :: ms)).reverse ++ members) frames := by
  induction ms generalizing name v members with
  | nil => exact hv (.object members ⟨name, true⟩ :: frames)
  | cons m ms ih =>
    obtain ⟨name', v'⟩ := m
    have htokens : memberTokens ((name, v) :: (name', v') :: ms) = .string ⟨name, true⟩ ::
      .colon :: (v.tokenList ++ .comma :: memberTokens ((name', v') :: ms)) := rfl
    have hname : take (take (.name members frames) (.string ⟨name, true⟩)) .colon =
        .value (.object members ⟨name, true⟩ :: frames) := rfl
    have hcomma : take (afterValue v.draft (.object members ⟨name, true⟩ :: frames)) .comma =
        .name ((⟨name, true⟩, v.draft) :: members) frames := rfl
    obtain ⟨hv', hms⟩ := List.forall_mem_cons.mp h
    rw [htokens, List.foldl_cons, List.foldl_cons, hname, List.foldl_append, hv, List.foldl_cons,
      hcomma, ih hv' hms]
    simp [memberDrafts]

/-- Before an item, an array that may still end is like one that may not. -/
theorem take_itemOrEnd (v : Json) (vs : List Json) (frames : List Frame) :
    (itemTokens (v :: vs)).foldl take (.itemOrEnd frames) =
      (itemTokens (v :: vs)).foldl take (.value (.array [] :: frames)) := by
  cases vs <;> cases v <;> rfl

theorem take_nameOrEnd (m : String × Json) (ms : List (String × Json)) (frames : List Frame) :
    (memberTokens (m :: ms)).foldl take (.nameOrEnd frames) =
      (memberTokens (m :: ms)).foldl take (.name [] frames) := by
  cases ms <;> rfl

theorem Plain.parsed {n : Nat} {v : Json} (h : Plain n v) : Parsed v := by
  induction h with
  | null => exact fun frames => rfl
  | bool b => exact fun frames => rfl
  | string s => exact fun frames => rfl
  | @array n items _ ih =>
    intro frames
    have hopen : take (.value frames) .openArray = .itemOrEnd frames := rfl
    cases items with
    | nil => rfl
    | cons v vs =>
      rw [tokenList, List.cons_append, List.foldl_cons, List.foldl_append, hopen, take_itemOrEnd,
        take_itemTokens ih, draft, List.append_nil]
      simp [take]
  | @object n members _ ih =>
    intro frames
    have hopen : take (.value frames) .openObject = .nameOrEnd frames := rfl
    cases members with
    | nil => rfl
    | cons m ms =>
      obtain ⟨hv, hms⟩ := List.forall_mem_cons.mp ih
      rw [tokenList, List.cons_append, List.foldl_cons, List.foldl_append, hopen, take_nameOrEnd,
        take_memberTokens hv hms, draft, List.append_nil]
      simp [take]

end Parsing

/-- The text of a value without numbers is the tree of the value, and nothing stands after it. -/
theorem Plain.ofChars {n : Nat} {v : Json} (h : Plain n v) :
    Draft.ofChars v.chars = (v.draft, false) := by
  rw [Draft.ofChars, h.tokens_chars, h.parsed]
  rfl

theorem settleItems_itemDrafts {n : Nat} {vs : List Json}
    (h : ∀ v ∈ vs, v.draft.settle n = .ok v) : Draft.settleItems n (itemDrafts vs) = .ok vs := by
  induction vs with
  | nil => rfl
  | cons v vs ih =>
    obtain ⟨hv, hrest⟩ := List.forall_mem_cons.mp h
    simp [itemDrafts, Draft.settleItems, hv, ih hrest, bind, Except.bind, pure, Except.pure]

theorem settleMembers_memberDrafts {n : Nat} {ms : List (String × Json)}
    (h : ∀ m ∈ ms, m.2.draft.settle n = .ok m.2) :
    Draft.settleMembers n (memberDrafts ms) = .ok ms := by
  induction ms with
  | nil => rfl
  | cons m ms ih =>
    obtain ⟨name, v⟩ := m
    obtain ⟨hv, hrest⟩ := List.forall_mem_cons.mp h
    have hv : v.draft.settle n = .ok v := hv
    simp [memberDrafts, Draft.settleMembers, Draft.quoted, hv, ih hrest, bind, Except.bind, pure,
      Except.pure]

/-- The tree of a value settles where there is room for its nesting. -/
theorem Plain.settle_draft {n : Nat} {v : Json} (h : Plain n v) : v.draft.settle n = .ok v := by
  induction h with
  | null => rfl
  | bool b => rfl
  | string s => rfl
  | array _ ih =>
    simp [draft, Draft.settle, settleItems_itemDrafts ih, Draft.close, bind, Except.bind, pure,
      Except.pure]
  | object _ ih =>
    simp [draft, Draft.settle, settleMembers_memberDrafts ih, Draft.close, bind, Except.bind,
      pure, Except.pure]

end Wiring.Json
