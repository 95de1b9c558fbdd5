import Mathlib.Data.List.TakeWhile
import Mathlib.Tactic.Common
import Tabular.Json.Printer
import Tabular.Json.Reader

/-!
# Reading what is written

The compact text of a value reads back as the value. The proof goes through the tokens of the value:
the lexer, which sees one character at a time, turns the text into these tokens, and the reader,
which sees one token at a time, turns the tokens into the value. A number or literal name ends only
where the next token begins, so that tokens are followed up to an unfinished one.

## Main definitions

* `Json.IsPlain`: values of texts, truth values, integers, `null`, arrays and objects.
* `Json.tokensOf`: the tokens that write a value.
* `Json.Lexer.Writes`: characters that write tokens, wherever they stand.
* `Json.Reader.Reads`: values whose tokens are read as the value, wherever they stand.

## Main results

* `Json.IsPlain.writes`: the text of a value writes its tokens.
* `Json.IsPlain.reads`: the tokens of a value are read as the value.
* `Json.IsPlain.parse?_render`: the text of a value is read as the value.
-/

namespace Tabular.Json

/-- Values without fractions and without strings that stand for no text. -/
inductive IsPlain : Json → Prop
  | null : IsPlain .null
  | bool (value : Bool) : IsPlain (.bool value)
  | int (value : Int) : IsPlain (.int value)
  | str (value : String) : IsPlain (.str value)
  | arr {items : List Json} (h : ∀ v ∈ items, IsPlain v) : IsPlain (.arr items)
  | obj {members : List (String × Json)} (h : ∀ m ∈ members, IsPlain m.2) : IsPlain (.obj members)

mutual

/-- The tokens that write a value. -/
def tokensOf : Json → List Token
  | .arr items => .openArray :: (itemTokens items ++ [.closeArray])
  | .obj members => .openObject :: (memberTokens members ++ [.closeObject])
  | .null => [.scalar .null]
  | .bool b => [.scalar (.bool b)]
  | .int n => [.scalar (.int n)]
  | .decimal text => [.scalar (.decimal text)]
  | .str s => [.scalar (.str s)]
  | .garbled => [.scalar .garbled]

/-- The tokens of array items, with commas between them. -/
def itemTokens : List Json → List Token
  | [] => []
  | [v] => tokensOf v
  | v :: w :: rest => tokensOf v ++ .comma :: itemTokens (w :: rest)

/-- The tokens of object members, with commas between them. -/
def memberTokens : List (String × Json) → List Token
  | [] => []
  | [(name, v)] => .scalar (.str name) :: .colon :: tokensOf v
  | (name, v) :: m :: rest =>
    .scalar (.str name) :: .colon :: (tokensOf v ++ .comma :: memberTokens (m :: rest))

end

namespace Lexer

/-- The tokens of a state, newest first, if the text ends here or another token begins. -/
def State.settled? (s : State) : Option (List Token) :=
  match s.pending with
  | .nothing => some s.done
  | .bare read => (scalarOfBare read.reverse).map fun v => .scalar v :: s.done
  | _ => none

/-- Whatever tokens come before, the characters add the given ones. -/
def Writes (cs : List Char) (ts : List Token) : Prop :=
  ∀ done, ∃ s, cs.foldlM step ⟨done, .nothing⟩ = some s ∧ s.settled? = some (ts.reverse ++ done)

/-- The characters that are tokens of their own. -/
inductive IsMark : Char → Token → Prop
  | openArray : IsMark '[' .openArray
  | closeArray : IsMark ']' .closeArray
  | openObject : IsMark '\x7b' .openObject
  | closeObject : IsMark '\x7d' .closeObject
  | comma : IsMark ',' .comma
  | colon : IsMark ':' .colon

variable {c : Char} {t : Token}

theorem IsMark.isBare_eq_false (h : IsMark c t) : isBare c = false := by
  cases h <;> rfl

theorem IsMark.start_eq (h : IsMark c t) (done : List Token) :
    start done c = some ⟨t :: done, .nothing⟩ := by
  cases h <;> rfl

theorem finish_eq_settled? (s : State) : finish s = s.settled?.map List.reverse := by
  rcases s with ⟨done, pending⟩
  cases pending <;> simp [finish, State.settled?, Option.map_map, Function.comp_def]

/-- A mark ends the token before it. -/
theorem IsMark.step_eq (hc : IsMark c t) {s : State} {done : List Token}
    (h : s.settled? = some done) : step s c = some ⟨t :: done, .nothing⟩ := by
  rcases s with ⟨read, pending⟩
  cases pending with
  | nothing =>
    obtain rfl : read = done := by simpa [State.settled?] using h
    exact hc.start_eq read
  | bare cs =>
    obtain ⟨v, hv, rfl⟩ := Option.map_eq_some_iff.mp h
    simp [step, hc.isBare_eq_false, hv, hc.start_eq]
  | _ => simp [State.settled?] at h

variable {cs cs' : List Char} {ts ts' : List Token}

theorem Writes.nil : Writes [] [] :=
  fun done => ⟨⟨done, .nothing⟩, rfl, rfl⟩

/-- Two parts with a mark between them. -/
theorem Writes.append_mark (h : Writes cs ts) (hc : IsMark c t) (h' : Writes cs' ts') :
    Writes (cs ++ c :: cs') (ts ++ t :: ts') := by
  intro done
  obtain ⟨s, hs, hsettled⟩ := h done
  obtain ⟨s', hs', hsettled'⟩ := h' (t :: (ts.reverse ++ done))
  refine ⟨s', ?_, ?_⟩
  · simp [List.foldlM_append, hs, hc.step_eq hsettled, hs']
  · simp [hsettled']

/-- A text is read as its tokens. -/
theorem Writes.tokens_eq {text : String} (h : Writes text.toList ts) : tokens text = some ts := by
  obtain ⟨s, hs, hsettled⟩ := h []
  simp [tokens, hs, finish_eq_settled?, hsettled]

/-! ### Strings -/

theorem hexDigit?_digitChar {d : Nat} (h : d < 16) : hexDigit? (Nat.digitChar d) = some d := by
  revert d
  decide

/-- The digits of a code unit that is no surrogate write its character. -/
theorem foldlM_unitDigits (done : List Token) (read : List Char) {n : Nat} (h : n < 0xd800) :
    (unitDigits n).foldlM step ⟨done, .unit (some read) none 4 0⟩ =
      some ⟨done, .text (some (Char.ofNat n :: read))⟩ := by
  have hvalue : 16 * (16 * (16 * (n / 4096 % 16) + n / 256 % 16) + n / 16 % 16) + n % 16 = n := by
    omega
  have hplain : unitRead (some read) none n = .text (some (Char.ofNat n :: read)) := by
    -- Surrogates lie above all code units in question.
    have hleading : ¬(0xd800 ≤ n) := by omega
    have htrailing : ¬(0xdc00 ≤ n) := by omega
    simp [unitRead, hleading, htrailing]
  simp [unitDigits, step, hexDigit?_digitChar, Nat.mod_lt, hvalue, hplain]

/-- The characters that write one character of a string are read as this character. -/
theorem foldlM_renderChar (done : List Token) (read : List Char) (c : Char) :
    (renderChar c).foldlM step ⟨done, .text (some read)⟩ =
      some ⟨done, .text (some (c :: read))⟩ := by
  unfold renderChar
  split_ifs with hquote hbackslash hnewline hreturn htab hcontrol
  · subst hquote; rfl
  · subst hbackslash; rfl
  · subst hnewline; rfl
  · subst hreturn; rfl
  · subst htab; rfl
  · have hescape : ('\\' :: 'u' :: unitDigits c.toNat).foldlM step ⟨done, .text (some read)⟩ =
        (unitDigits c.toNat).foldlM step ⟨done, .unit (some read) none 4 0⟩ := rfl
    rw [hescape, foldlM_unitDigits done read (by omega), Char.ofNat_toNat]
  · simp [step, textStep, hquote, hbackslash, hcontrol]

theorem foldlM_flatMap_renderChar (done : List Token) (read cs : List Char) :
    (cs.flatMap renderChar).foldlM step ⟨done, .text (some read)⟩ =
      some ⟨done, .text (some (cs.reverse ++ read))⟩ := by
  induction cs generalizing read with
  | nil => rfl
  | cons c rest ih => simp [List.foldlM_append, foldlM_renderChar, ih]

theorem writes_renderString (s : String) : Writes (renderString s).toList [.scalar (.str s)] := by
  intro done
  refine ⟨⟨.scalar (.str s) :: done, .nothing⟩, ?_, rfl⟩
  rw [renderString, String.toList_ofList, List.cons_append, List.foldlM_cons]
  change (s.toList.flatMap renderChar ++ ['"']).foldlM step ⟨done, .text (some [])⟩ = _
  simp [List.foldlM_append, foldlM_flatMap_renderChar, step, textStep, scalarOfText]

/-! ### Numbers and literal names -/

theorem start_of_isBare {c : Char} (h : isBare c = true) (done : List Token) :
    start done c = some ⟨done, .bare [c]⟩ := by
  have hblank : isBlank c = false := by
    by_contra hc
    simp only [Bool.not_eq_false, isBlank, Bool.or_eq_true, decide_eq_true_eq] at hc
    rcases hc with ((rfl | rfl) | rfl) | rfl <;> exact absurd h (by decide)
  have hquote : c ≠ '"' := by
    rintro rfl
    exact absurd h (by decide)
  simp [start, hblank, hquote, h]

theorem foldlM_bare (done : List Token) (read : List Char) (h : ∀ c ∈ cs, isBare c = true) :
    cs.foldlM step ⟨done, .bare read⟩ = some ⟨done, .bare (cs.reverse ++ read)⟩ := by
  induction cs generalizing read with
  | nil => rfl
  | cons c rest ih =>
    simp [step, h c (by simp), ih (c :: read) fun d hd => h d (by simp [hd])]

/-- A run that is a number or literal name is one token. -/
theorem writes_of_scalarOfBare {v : Json} (hne : cs ≠ []) (hbare : ∀ c ∈ cs, isBare c = true)
    (hv : scalarOfBare cs = some v) : Writes cs [.scalar v] := by
  intro done
  refine ⟨⟨done, .bare cs.reverse⟩, ?_, by simp [State.settled?, hv]⟩
  cases cs with
  | nil => exact absurd rfl hne
  | cons c rest =>
    have hstart : step ⟨done, .nothing⟩ c = some ⟨done, .bare [c]⟩ :=
      start_of_isBare (hbare c (by simp)) done
    have hrest : ∀ d ∈ rest, isBare d = true := fun d hd => hbare d (by simp [hd])
    simp [hstart, foldlM_bare done [c] hrest]

theorem isBare_of_isDigit {c : Char} (h : c.isDigit = true) : isBare c = true := by
  simp [isBare, Char.isAlphanum, h]

theorem isDigit_of_mem_toDigits {n : Nat} {c : Char} (h : c ∈ Nat.toDigits 10 n) :
    c.isDigit = true :=
  Nat.isDigit_of_mem_toDigits (by decide) (by decide) h

theorem decimalValue_toDigits (n : Nat) : decimalValue (Nat.toDigits 10 n) = n := by
  rw [decimalValue, ← Nat.ofDigitChars_eq_foldl]
  exact Nat.ofDigitChars_ten_toDigits

/-- Zero is the only number whose digits begin with a zero. -/
theorem eq_zero_of_head?_toDigits {n : Nat} (h : (Nat.toDigits 10 n).head? = some '0') :
    n = 0 := by
  induction n using Nat.strongRecOn with
  | ind n ih =>
    by_cases hn : n < 10
    · have hdigit : ∀ d < 10, Nat.digitChar d = '0' → d = 0 := by decide
      rw [Nat.toDigits_of_lt_base hn, List.head?_cons, Option.some.injEq] at h
      exact hdigit n hn h
    · have hfront : (Nat.toDigits 10 (n / 10)).head? = some '0' := by
        rwa [Nat.toDigits_of_base_le (by decide) (by omega), List.head?_append,
          List.head?_eq_some_head Nat.toDigits_ne_nil, Option.some_or,
          ← List.head?_eq_some_head] at h
      have hzero := ih (n / 10) (by omega) hfront
      omega

theorem unsignedNumber_toDigits {negative : Bool} {n : Nat} (h : negative = true → n ≠ 0) :
    unsignedNumber negative (Nat.toDigits 10 n) =
      some (.int (if negative then -(n : Int) else n)) := by
  have hall : ∀ c ∈ Nat.toDigits 10 n, c.isDigit = true := fun c => isDigit_of_mem_toDigits
  have hzero : (Nat.toDigits 10 n).head? = some '0' → (Nat.toDigits 10 n).length = 1 := by
    intro hhead
    rw [eq_zero_of_head?_toDigits hhead]
    rfl
  simpa [unsignedNumber, List.takeWhile_eq_self_iff.mpr hall, List.dropWhile_eq_nil_iff.mpr hall,
    Nat.toDigits_ne_nil, decimalValue_toDigits] using And.intro hzero h

theorem scalarOfBare_toDigits (n : Nat) : scalarOfBare (Nat.toDigits 10 n) = some (.int n) := by
  have hnumber := @unsignedNumber_toDigits false n (by simp)
  obtain ⟨d, ds, hdigits⟩ := List.exists_cons_of_ne_nil (Nat.toDigits_ne_nil (n := n) (b := 10))
  have hd : d.isDigit = true := isDigit_of_mem_toDigits (n := n) (by simp [hdigits])
  have hne : d ≠ 'n' ∧ d ≠ 't' ∧ d ≠ 'f' ∧ d ≠ '-' := by
    refine ⟨?_, ?_, ?_, ?_⟩ <;> (rintro rfl; exact absurd hd (by decide))
  rw [hdigits] at hnumber ⊢
  simpa [scalarOfBare, hne] using hnumber

theorem scalarOfBare_neg_toDigits {n : Nat} (h : n ≠ 0) :
    scalarOfBare ('-' :: Nat.toDigits 10 n) = some (.int (-n)) := by
  have hnumber := @unsignedNumber_toDigits true n fun _ => h
  simpa [scalarOfBare] using hnumber

theorem writes_int (n : Int) : Writes (toString n).toList [.scalar (.int n)] := by
  cases n with
  | ofNat n =>
    have htext : (toString (Int.ofNat n)).toList = Nat.toDigits 10 n := Nat.toList_repr
    rw [htext]
    exact writes_of_scalarOfBare Nat.toDigits_ne_nil
      (fun c hc => isBare_of_isDigit (isDigit_of_mem_toDigits hc)) (scalarOfBare_toDigits n)
  | negSucc n =>
    have htext : (toString (Int.negSucc n)).toList = '-' :: Nat.toDigits 10 (n + 1) := by
      change ("-" ++ (n + 1).repr).toList = _
      rw [String.toList_append, Nat.toList_repr]
      rfl
    rw [htext]
    refine writes_of_scalarOfBare (by simp) ?_ (scalarOfBare_neg_toDigits (by omega))
    intro c hc
    rcases List.mem_cons.mp hc with rfl | hc
    · decide
    · exact isBare_of_isDigit (isDigit_of_mem_toDigits hc)

end Lexer

/-! ### The text of a value -/

section Text

open Lexer

theorem writes_renderItems {items : List Json}
    (h : ∀ v ∈ items, Writes v.render.toList (tokensOf v)) :
    Writes (renderItems items).toList (itemTokens items) := by
  induction items with
  | nil => exact .nil
  | cons v rest ih =>
    have hv := h v (by simp)
    cases rest with
    | nil => exact hv
    | cons w rest =>
      have htext : (renderItems (v :: w :: rest)).toList =
          v.render.toList ++ ',' :: (renderItems (w :: rest)).toList := by
        simp [renderItems, String.toList_append]
      rw [htext, itemTokens]
      exact hv.append_mark .comma (ih fun u hu => h u (List.mem_cons_of_mem _ hu))

theorem writes_renderMembers {members : List (String × Json)}
    (h : ∀ m ∈ members, Writes m.2.render.toList (tokensOf m.2)) :
    Writes (renderMembers members).toList (memberTokens members) := by
  induction members with
  | nil => exact .nil
  | cons m rest ih =>
    obtain ⟨name, v⟩ := m
    have hmember : Writes ((renderString name).toList ++ ':' :: v.render.toList)
        (.scalar (.str name) :: .colon :: tokensOf v) :=
      (writes_renderString name).append_mark .colon (h (name, v) (by simp))
    cases rest with
    | nil => simpa [renderMembers, memberTokens, String.toList_append] using hmember
    | cons m rest =>
      have htext : (renderMembers ((name, v) :: m :: rest)).toList =
          (renderString name).toList ++ ':' :: v.render.toList ++
            ',' :: (renderMembers (m :: rest)).toList := by
        simp [renderMembers, String.toList_append]
      rw [htext, memberTokens]
      exact hmember.append_mark .comma (ih fun u hu => h u (List.mem_cons_of_mem _ hu))

/-- The text of a value writes its tokens. -/
theorem IsPlain.writes {v : Json} (h : v.IsPlain) : Writes v.render.toList (tokensOf v) := by
  induction h with
  | null =>
    change Writes ['n', 'u', 'l', 'l'] _
    exact writes_of_scalarOfBare (by simp) (List.all_eq_true.mp rfl) rfl
  | bool b =>
    cases b with
    | false =>
      change Writes ['f', 'a', 'l', 's', 'e'] _
      exact writes_of_scalarOfBare (by simp) (List.all_eq_true.mp rfl) rfl
    | true =>
      change Writes ['t', 'r', 'u', 'e'] _
      exact writes_of_scalarOfBare (by simp) (List.all_eq_true.mp rfl) rfl
  | int n => exact writes_int n
  | str s => exact writes_renderString s
  | arr _ ih =>
    have hitems := (writes_renderItems ih).append_mark .closeArray .nil
    simpa [render, tokensOf, String.toList_append] using
      Writes.nil.append_mark .openArray hitems
  | obj _ ih =>
    have hmembers := (writes_renderMembers ih).append_mark .closeObject .nil
    simpa [render, tokensOf, String.toList_append] using
      Writes.nil.append_mark .openObject hmembers

end Text

/-! ### The value of the tokens -/

namespace Reader

/-- Wherever a value may stand, its tokens are read as the value. -/
def Reads (v : Json) : Prop :=
  ∀ stack, (tokensOf v).foldlM step ⟨stack, .value⟩ = some ⟨stack, .finished v⟩

/-- Members with their names, as the reader keeps them. -/
def named (members : List (String × Json)) : Members :=
  members.map fun m => (some m.1, m.2)

theorem mapM_named {f : Option String × Json → Option (String × Json)}
    (h : ∀ m : String × Json, f (some m.1, m.2) = some m) (members : List (String × Json)) :
    (named members).mapM f = some members := by
  rw [named]
  induction members with
  | nil => rfl
  | cons m rest ih => simp [h, ih]

/-- Members whose names stand for texts make an object. -/
theorem objectOf_reverse_named (members : List (String × Json)) :
    objectOf (named members).reverse = .obj members := by
  rw [objectOf, List.reverse_reverse, mapM_named fun _ => rfl]

/-- Items begin with a token that does not end an array. -/
theorem exists_itemTokens_eq_cons {items : List Json} (hne : items ≠ []) :
    ∃ t ts, itemTokens items = t :: ts ∧ t ≠ .closeArray := by
  have hvalue : ∀ v, ∃ t ts, tokensOf v = t :: ts ∧ t ≠ .closeArray := by
    intro v
    cases v <;> exact ⟨_, _, rfl, by simp⟩
  match items, hne with
  | [v], _ => exact hvalue v
  | v :: w :: rest, _ =>
    obtain ⟨t, ts, htokens, ht⟩ := hvalue v
    exact ⟨t, _, by rw [itemTokens, htokens, List.cons_append], ht⟩

/-- The first item of an array is read as any other. -/
theorem foldlM_firstItem {items : List Json} (hne : items ≠ []) (ts : List Token)
    (stack : List Frame) :
    (itemTokens items ++ ts).foldlM step ⟨stack, .firstItem⟩ =
      (itemTokens items ++ ts).foldlM step ⟨.array [] :: stack, .value⟩ := by
  obtain ⟨t, rest, htokens, ht⟩ := exists_itemTokens_eq_cons hne
  have hstep : step ⟨stack, .firstItem⟩ t = step ⟨.array [] :: stack, .value⟩ t := by
    cases t with
    | closeArray => exact absurd rfl ht
    | _ => rfl
  rw [htokens, List.cons_append, List.foldlM_cons, List.foldlM_cons, hstep]

/-- Items of an array up to its end, after those read before. -/
theorem foldlM_itemTokens {items : List Json} (h : ∀ v ∈ items, Reads v) (hne : items ≠ [])
    (read : List Json) (stack : List Frame) :
    (itemTokens items ++ [Token.closeArray]).foldlM step ⟨.array read :: stack, .value⟩ =
      some ⟨stack, .finished (.arr (read.reverse ++ items))⟩ := by
  induction items generalizing read with
  | nil => exact absurd rfl hne
  | cons v rest ih =>
    have hv := h v (by simp) (.array read :: stack)
    cases rest with
    | nil => simp [itemTokens, List.foldlM_append, hv, step, continue?]
    | cons w rest =>
      have hrest := ih (fun u hu => h u (List.mem_cons_of_mem _ hu)) (by simp) (v :: read)
      rw [List.foldlM_append] at hrest
      simpa [itemTokens, List.foldlM_append, hv, step, continue?] using hrest

/-- Members of an object up to its end, after those read before. -/
theorem foldlM_memberTokens {members : List (String × Json)} (h : ∀ m ∈ members, Reads m.2)
    (hne : members ≠ []) (read : Members) (stack : List Frame) :
    (memberTokens members ++ [Token.closeObject]).foldlM step ⟨stack, .member read⟩ =
      some ⟨stack, .finished (objectOf ((named members).reverse ++ read))⟩ := by
  induction members generalizing read with
  | nil => exact absurd rfl hne
  | cons m rest ih =>
    obtain ⟨name, v⟩ := m
    have hv : _ = _ := h (name, v) (by simp) (.member read (some name) :: stack)
    cases rest with
    | nil => simp [memberTokens, List.foldlM_append, hv, step, memberName?, continue?, named]
    | cons m rest =>
      have hrest := ih (fun u hu => h u (List.mem_cons_of_mem _ hu)) (by simp)
        ((some name, v) :: read)
      rw [List.foldlM_append] at hrest
      simpa [memberTokens, List.foldlM_append, hv, step, memberName?, continue?, named] using hrest

/-- The first member of an object is read as any other. -/
theorem foldlM_firstMember {members : List (String × Json)} (hne : members ≠ [])
    (ts : List Token) (stack : List Frame) :
    (memberTokens members ++ ts).foldlM step ⟨stack, .firstMember⟩ =
      (memberTokens members ++ ts).foldlM step ⟨stack, .member []⟩ := by
  match members, hne with
  | [_], _ => rfl
  | _ :: _ :: _, _ => rfl

end Reader

/-- The tokens of a value are read as the value. -/
theorem IsPlain.reads {v : Json} (h : v.IsPlain) : Reader.Reads v := by
  induction h with
  | null | bool | int | str => exact fun _ => rfl
  | @arr items _ ih =>
    intro stack
    cases items with
    | nil => rfl
    | cons v rest =>
      have hitems := Reader.foldlM_itemTokens ih (by simp) [] stack
      rw [← Reader.foldlM_firstItem (by simp)] at hitems
      exact hitems
  | @obj members _ ih =>
    intro stack
    cases members with
    | nil => rfl
    | cons m rest =>
      have hmembers := Reader.foldlM_memberTokens ih (by simp) [] stack
      rw [← Reader.foldlM_firstMember (by simp), List.append_nil,
        Reader.objectOf_reverse_named] at hmembers
      exact hmembers

/-- The text of a value is read as the value. -/
theorem IsPlain.parse?_render {v : Json} (h : v.IsPlain) : parse? v.render = some v := by
  have hreads : _ = _ := h.reads []
  simp [parse?, h.writes.tokens_eq, hreads, Reader.finish]

end Tabular.Json
