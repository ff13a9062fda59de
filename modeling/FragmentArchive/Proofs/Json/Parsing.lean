import FragmentArchive.Proofs.Json.Scanning

/-!
# Parsing what was written

The text of a document is cut into the tokens of the document, whatever the layout, and these have
the structure of the document. Both are inductions over documents in which the list of remaining
items, or of members, goes along with the document itself: it is not a document and has statements
of its own.
-/

namespace FragmentArchive.Json

/-! ## The tokens of a document -/

namespace Value

mutual

/-- The tokens of a document. -/
def tokenList : Value → List Token
  | .null => [.scalar .null]
  | .bool b => [.scalar (.bool b)]
  | .integer n => [.scalar (.number (.ofInt n))]
  | .string s => [.scalar (.string s)]
  | .array [] => [.beginArray, .endArray]
  | .array (item :: items) =>
    .beginArray :: (item.tokenList ++ (itemTokens items ++ [.endArray]))
  | .object [] => [.beginObject, .endObject]
  | .object ((key, value) :: members) =>
    .beginObject :: .scalar (.string key) :: .colon ::
      (value.tokenList ++ (memberTokens members ++ [.endObject]))

/-- The tokens of the items after the first. -/
def itemTokens : List Value → List Token
  | [] => []
  | item :: items => .comma :: (item.tokenList ++ itemTokens items)

/-- The tokens of the members after the first. -/
def memberTokens : List (String × Value) → List Token
  | [] => []
  | (key, value) :: members =>
    .comma :: .scalar (.string key) :: .colon :: (value.tokenList ++ memberTokens members)

end

/-- A document has a first token, and it closes no list. -/
theorem exists_cons_tokenList (v : Value) :
    ∃ token rest, v.tokenList = token :: rest ∧ token ≠ .endArray := by
  cases v with
  | array items => cases items <;> exact ⟨.beginArray, _, by rw [tokenList], Token.noConfusion⟩
  | object members =>
    cases members <;> exact ⟨.beginObject, _, by rw [tokenList], Token.noConfusion⟩
  | _ => exact ⟨_, _, by rw [tokenList], Token.noConfusion⟩

end Value

/-! ## Cutting -/

/-- A layout in which nothing but blanks stands between the parts. -/
structure Layout.Blank (layout : Layout) : Prop where
  gap : ∀ depth, ∀ c ∈ layout.gap depth, isBlank c = true
  space : ∀ c ∈ layout.space, isBlank c = true

theorem Layout.blank_compact : Layout.compact.Blank where
  gap _ _ h := nomatch h
  space _ h := nomatch h

theorem Layout.blank_indented : Layout.indented.Blank where
  gap depth c hc := by
    rcases List.mem_cons.mp hc with rfl | hc
    · rfl
    · rw [List.eq_of_mem_replicate hc]
      rfl
  space c hc := by
    rw [List.mem_singleton.mp hc]
    rfl

namespace Value

open Numeral

theorem stops_itemChars {layout : Layout} {depth : Nat} {items : List Value} {s : List Char}
    (hs : Stops s) : Stops (itemChars layout depth items ++ s) := by
  cases items with
  | nil => rwa [itemChars]
  | cons item items =>
    rw [itemChars]
    exact stops_cons (by decide) _

theorem stops_memberChars {layout : Layout} {depth : Nat} {members : List (String × Value)}
    {s : List Char} (hs : Stops s) : Stops (memberChars layout depth members ++ s) := by
  cases members with
  | nil => rwa [memberChars]
  | cons member members =>
    rw [memberChars]
    exact stops_cons (by decide) _

variable {layout : Layout}

mutual

theorem tokens_chars (h : layout.Blank) (depth : Nat) (v : Value) {rest : List Char}
    (hrest : Stops rest) :
    tokens (v.chars layout depth ++ rest) = v.tokenList ++ tokens rest := by
  match v with
  | .null => exact tokens_null rest
  | .bool true => exact tokens_true rest
  | .bool false => exact tokens_false rest
  | .integer n => exact tokens_ofInt n hrest
  | .string s => exact tokens_write s rest
  | .array [] => simp only [chars, tokenList, List.cons_append, List.nil_append,
      tokens_beginArray, tokens_endArray]
  | .object [] => simp only [chars, tokenList, List.cons_append, List.nil_append,
      tokens_beginObject, tokens_endObject]
  | .array (item :: items) =>
    have hend : Stops (layout.gap depth ++ ']' :: rest) :=
      stops_blanks (h.gap depth) (stops_cons (by decide) rest)
    simp only [chars, tokenList, List.cons_append, List.append_assoc, List.nil_append]
    rw [tokens_beginArray, tokens_blanks (h.gap _), tokens_chars h _ item (stops_itemChars hend),
      tokens_itemChars h _ items hend, tokens_blanks (h.gap _), tokens_endArray]
  | .object ((key, value) :: members) =>
    have hend : Stops (layout.gap depth ++ '}' :: rest) :=
      stops_blanks (h.gap depth) (stops_cons (by decide) rest)
    simp only [chars, tokenList, List.cons_append, List.append_assoc, List.nil_append]
    rw [tokens_beginObject, tokens_blanks (h.gap _), tokens_write, tokens_colon,
      tokens_blanks h.space, tokens_chars h _ value (stops_memberChars hend),
      tokens_memberChars h _ members hend, tokens_blanks (h.gap _), tokens_endObject]

theorem tokens_itemChars (h : layout.Blank) (depth : Nat) (items : List Value) {rest : List Char}
    (hrest : Stops rest) :
    tokens (itemChars layout depth items ++ rest) = itemTokens items ++ tokens rest := by
  match items with
  | [] => rw [itemChars, itemTokens, List.nil_append, List.nil_append]
  | item :: items =>
    simp only [itemChars, itemTokens, List.cons_append, List.append_assoc]
    rw [tokens_comma, tokens_blanks (h.gap _), tokens_chars h _ item (stops_itemChars hrest),
      tokens_itemChars h _ items hrest]

theorem tokens_memberChars (h : layout.Blank) (depth : Nat) (members : List (String × Value))
    {rest : List Char} (hrest : Stops rest) :
    tokens (memberChars layout depth members ++ rest) = memberTokens members ++ tokens rest := by
  match members with
  | [] => rw [memberChars, memberTokens, List.nil_append, List.nil_append]
  | (key, value) :: members =>
    simp only [memberChars, memberTokens, List.cons_append, List.append_assoc]
    rw [tokens_comma, tokens_blanks (h.gap _), tokens_write, tokens_colon, tokens_blanks h.space,
      tokens_chars h _ value (stops_memberChars hrest), tokens_memberChars h _ members hrest]

end

end Value

/-! ## Assembling

The fuel is compared with the number of tokens of what is parsed. Every list of items or members
has at least its closing bracket more than its parts, which pays for the call that looks for it. -/

namespace Tree

/-- A list is not over before its first item. -/
theorem parseValue_beginArray (fuel : Nat) {token : Token} (h : token ≠ .endArray)
    (rest : List Token) :
    parseValue (fuel + 1) (.beginArray :: token :: rest) =
      (.array (parseItems fuel (token :: rest)).1 (parseItems fuel (token :: rest)).2.1,
        (parseItems fuel (token :: rest)).2.2) := by
  rw [parseValue]
  rintro _ ⟨⟩
  exact h rfl

open Value

mutual

theorem parseValue_tokenList (v : Value) {fuel : Nat} (h : v.tokenList.length ≤ fuel)
    (rest : List Token) : parseValue fuel (v.tokenList ++ rest) = (v.tree, rest) := by
  match v, fuel, h with
  | .null, fuel + 1, _ => rfl
  | .bool b, fuel + 1, _ => rfl
  | .integer n, fuel + 1, _ => rfl
  | .string s, fuel + 1, _ => rfl
  | .array [], fuel + 1, _ => rfl
  | .object [], fuel + 1, _ => rfl
  | .array (item :: items), fuel + 1, h =>
    have hfuel : item.tokenList.length + (itemTokens items).length + 1 ≤ fuel := by
      simp only [tokenList, List.length_cons, List.length_append, List.length_nil] at h
      omega
    have hitems := parseItems_tokenList item items hfuel rest
    obtain ⟨token, more, htokens, hfirst⟩ := item.exists_cons_tokenList
    simp only [tokenList, tree, List.cons_append, List.append_assoc, List.nil_append]
    rw [htokens, List.cons_append] at hitems ⊢
    rw [parseValue_beginArray fuel hfirst, hitems]
  | .object ((key, value) :: members), fuel + 1, h =>
    have hfuel : value.tokenList.length + (memberTokens members).length + 3 ≤ fuel := by
      simp only [tokenList, List.length_cons, List.length_append, List.length_nil] at h
      omega
    have hmembers := parseMembers_tokenList key value members hfuel rest
    simp only [tokenList, tree, List.cons_append, List.append_assoc, List.nil_append]
    rw [parseValue, hmembers]
    rintro _ ⟨⟩

theorem parseItems_tokenList (item : Value) (items : List Value) {fuel : Nat}
    (h : item.tokenList.length + (itemTokens items).length + 1 ≤ fuel) (rest : List Token) :
    parseItems fuel (item.tokenList ++ (itemTokens items ++ .endArray :: rest)) =
      (itemTrees (item :: items), .closed, rest) := by
  match fuel, h with
  | fuel + 1, h =>
    rw [parseItems, parseValue_tokenList item (by omega)]
    match items with
    | [] => rfl
    | next :: items =>
      have hfuel : next.tokenList.length + (itemTokens items).length + 1 ≤ fuel := by
        simp only [itemTokens, List.length_cons, List.length_append] at h
        omega
      simp only [itemTokens, List.cons_append, List.append_assoc]
      rw [parseItems_tokenList next items hfuel]
      rfl

theorem parseMembers_tokenList (key : String) (value : Value) (members : List (String × Value))
    {fuel : Nat} (h : value.tokenList.length + (memberTokens members).length + 3 ≤ fuel)
    (rest : List Token) :
    parseMembers fuel (.scalar (.string key) :: .colon ::
        (value.tokenList ++ (memberTokens members ++ .endObject :: rest))) =
      (memberTrees ((key, value) :: members), .closed, rest) := by
  match fuel, h with
  | fuel + 2, h =>
    rw [parseMembers, parseMember, parseValue_tokenList value (by omega)]
    match members with
    | [] => rfl
    | (next, content) :: members =>
      have hfuel : content.tokenList.length + (memberTokens members).length + 3 ≤ fuel := by
        simp only [memberTokens, List.length_cons, List.length_append] at h
        omega
      simp only [memberTokens, List.cons_append, List.append_assoc]
      rw [parseMembers_tokenList next content members hfuel]
      rfl

end

/-- **A written document has its own structure**, and nothing follows it, whatever blanks the
layout puts between its parts. -/
theorem ofTokens_chars {layout : Layout} (h : layout.Blank) (depth : Nat) (v : Value) :
    ofTokens (tokens (v.chars layout depth)) = (v.tree, []) := by
  have hend : Numeral.Stops [] := fun _ hc ↦ nomatch hc
  have htokens := tokens_chars h depth v hend
  rw [List.append_nil, tokens_nil] at htokens
  rw [ofTokens, htokens]
  refine parseValue_tokenList v ?_ []
  rw [List.length_append]
  omega

end Tree

end FragmentArchive.Json
