import QsAi.Foundation.JsonExtent

/-! The weight of a value: its nodes and the characters of its texts. What is
read from a text weighs less than the text, so that a reader may follow texts
inside texts to their end. -/
namespace PyJson

open Binary64 Guarded

mutual

/-- The nodes of a value and the characters of its strings. -/
def weight : Value → Nat
  | .string value => value.length + 1
  | .array items => itemsWeight items + 1
  | .object fields => fieldsWeight fields + 1
  | _ => 1

def itemsWeight : List Value → Nat
  | [] => 0
  | item :: rest => weight item + itemsWeight rest

def fieldsWeight : List (Text × Value) → Nat
  | [] => 0
  | (_, item) :: rest => weight item + fieldsWeight rest

end

theorem weight_pos (value : Value) : 0 < weight value := by
  cases value <;> simp [weight]

theorem itemsWeight_mem {items : List Value} {item : Value} (h : item ∈ items) : weight item ≤ itemsWeight items := by
  induction items with
  | nil => cases h
  | cons first rest ih =>
      rw [itemsWeight]
      rcases List.mem_cons.mp h with rfl | hRest
      · omega
      · have := ih hRest
        omega

theorem fieldsWeight_mem {fields : List (Text × Value)} {field : Text × Value} (h : field ∈ fields) :
    weight field.2 ≤ fieldsWeight fields := by
  induction fields with
  | nil => cases h
  | cons first rest ih =>
      rw [fieldsWeight]
      rcases List.mem_cons.mp h with rfl | hRest
      · omega
      · have := ih hRest
        omega

theorem fieldsWeight_append (first second : List (Text × Value)) :
    fieldsWeight (first ++ second) = fieldsWeight first + fieldsWeight second := by
  induction first with
  | nil => simp [fieldsWeight]
  | cons field rest ih => rw [List.cons_append, fieldsWeight, fieldsWeight, ih, Nat.add_assoc]

theorem insert_keys (dict : List (Text × Value)) (key : Text) (value : Value) :
    (insert dict key value).map (·.1) = if key ∈ dict.map (·.1) then dict.map (·.1) else dict.map (·.1) ++ [key] := by
  unfold insert
  split
  · rw [List.map_map]
    refine List.map_congr_left fun field _ => ?_
    by_cases hKey : field.1 = key
    · simp [hKey]
    · simp [hKey]
  · simp

theorem insert_nodup {dict : List (Text × Value)} (h : (dict.map (·.1)).Nodup) (key : Text) (value : Value) :
    ((insert dict key value).map (·.1)).Nodup := by
  rw [insert_keys]
  split
  · exact h
  · rename_i hNew
    rw [List.nodup_append]
    refine ⟨h, List.nodup_singleton key, fun found hFound other hOther => ?_⟩
    rw [List.mem_singleton.mp hOther]
    rintro rfl
    exact hNew hFound

/-- A field that takes the place of another one does not add to its weight. -/
theorem fieldsWeight_replace {dict : List (Text × Value)} (h : (dict.map (·.1)).Nodup) (key : Text) (value : Value) :
    fieldsWeight (dict.map fun field => if field.1 = key then (key, value) else field) ≤ fieldsWeight dict + weight value := by
  induction dict with
  | nil => exact Nat.zero_le _
  | cons field rest ih =>
      rw [List.map_cons, List.nodup_cons] at h
      rw [List.map_cons, fieldsWeight.eq_def (field :: rest)]
      by_cases hKey : field.1 = key
      · have hRest : rest.map (fun field => if field.1 = key then (key, value) else field) = rest := by
          refine (List.map_congr_left fun other hOther => if_neg fun hSame => h.1 ?_).trans (List.map_id rest)
          rw [hKey, ← hSame]
          exact List.mem_map_of_mem hOther
        rw [if_pos hKey, hRest, fieldsWeight]
        simp only
        omega
      · rw [if_neg hKey]
        obtain ⟨name, item⟩ := field
        rw [fieldsWeight]
        have := ih h.2
        simp only
        omega

theorem fieldsWeight_insert {dict : List (Text × Value)} (h : (dict.map (·.1)).Nodup) (key : Text) (value : Value) :
    fieldsWeight (insert dict key value) ≤ fieldsWeight dict + weight value := by
  unfold insert
  split
  · exact fieldsWeight_replace h key value
  · rw [fieldsWeight_append]
    simp [fieldsWeight]

theorem fieldsWeight_overwrite (fields : List (Text × Value)) : ∀ {dict : List (Text × Value)}, (dict.map (·.1)).Nodup →
    fieldsWeight (fields.foldl (fun dict field => insert dict field.1 field.2) dict) ≤ fieldsWeight dict + fieldsWeight fields := by
  induction fields with
  | nil => exact fun _ => Nat.le_refl _
  | cons field rest ih =>
      intro dict h
      have hLater := ih (insert_nodup h field.1 field.2)
      have hFirst := fieldsWeight_insert h field.1 field.2
      rw [List.foldl_cons, fieldsWeight.eq_def (field :: rest)]
      simp only
      omega

/-! What is read weighs no more than its text. -/

theorem skipSpace_length (input : Text) : (skipSpace input).length ≤ input.length :=
  (List.dropWhile_suffix _).length_le

theorem scanValue_weight {fuel : Nat} {depth : Option Nat} {input rest : Text} {value : Value}
    (hItems : ∀ {depth input items rest}, scanItems overwrite fuel depth input = .ok (items, rest) →
      itemsWeight items + rest.length < input.length)
    (hFields : ∀ {depth input fields rest}, scanFields overwrite fuel depth input = .ok (fields, rest) →
      fieldsWeight fields + rest.length < input.length)
    (h : scanValue overwrite (fuel + 1) depth input = .ok (value, rest)) : weight value + rest.length ≤ input.length := by
  cases input with
  | nil => simp [scanValue] at h
  | cons c tail =>
      have hSkip := skipSpace_length tail
      by_cases hBrace : c = 123
      · subst hBrace
        obtain ⟨inner, -, ⟨hEmpty, hHook⟩ | ⟨-, fields, hRead, hHook⟩⟩ := scanValue_brace h
        · cases hHook
          rw [hEmpty, List.length_cons] at hSkip
          simp only [weight, List.foldl_nil, fieldsWeight, List.length_cons]
          omega
        · cases hHook
          have hOver := @fieldsWeight_overwrite fields [] List.nodup_nil
          have hFound := hFields hRead
          simp only [weight, fieldsWeight, List.length_cons] at hOver ⊢
          omega
      by_cases hBracket : c = 91
      · subst hBracket
        obtain ⟨inner, -, ⟨hEmpty, rfl⟩ | ⟨-, items, hRead, rfl⟩⟩ := scanValue_bracket h
        · rw [hEmpty, List.length_cons] at hSkip
          simp only [weight, itemsWeight, List.length_cons]
          omega
        · have hFound := hItems hRead
          simp only [weight, List.length_cons]
          omega
      rw [scanValue] at h
      by_cases hQuote : c = 34
      · rw [if_pos hQuote, bind_ok] at h
        obtain ⟨⟨found, left⟩, hFound, h⟩ := h
        cases h
        obtain ⟨word, rfl, hLength, -⟩ := scanString_extent hFound
        simp only [weight, List.length_cons, List.length_append]
        omega
      rw [if_neg hQuote, if_neg hBrace, if_neg hBracket] at h
      have hScalar : weight value = 1 ∧ rest.length < (c :: tail).length := by
        cases hWord : scanWord (c :: tail) with
        | some found =>
            rw [hWord] at h
            cases h
            obtain ⟨extent, hInput, hSome, -⟩ := scanWord_extent hWord
            rw [hInput, List.length_append]
            refine ⟨?_, Nat.lt_add_of_pos_left (List.length_pos_iff.mpr hSome)⟩
            rcases scanWord_scalar hWord with rfl | ⟨_, rfl⟩ <;> rfl
        | none =>
            rw [hWord] at h
            obtain ⟨extent, hInput, hSome, -⟩ := scanNumber_extent h
            rw [hInput, List.length_append]
            refine ⟨?_, Nat.lt_add_of_pos_left (List.length_pos_iff.mpr hSome)⟩
            rcases scanNumber_scalar h with ⟨_, rfl⟩ | ⟨_, rfl⟩ <;> rfl
      omega

/-- The three readers together, by induction on the fuel. -/
theorem scan_weight (fuel : Nat) :
    (∀ depth input value rest, scanValue overwrite fuel depth input = .ok (value, rest) →
      weight value + rest.length ≤ input.length) ∧
    (∀ depth input items rest, scanItems overwrite fuel depth input = .ok (items, rest) →
      itemsWeight items + rest.length < input.length) ∧
    ∀ depth input fields rest, scanFields overwrite fuel depth input = .ok (fields, rest) →
      fieldsWeight fields + rest.length < input.length := by
  induction fuel with
  | zero =>
      refine ⟨fun depth input value rest h => ?_, fun depth input items rest h => ?_, fun depth input fields rest h => ?_⟩
      · simp [scanValue] at h
      · simp [scanItems] at h
      · simp [scanFields] at h
  | succ fuel ih =>
      obtain ⟨hValue, hItems, hFields⟩ := ih
      refine ⟨fun depth input value rest h => ?_, fun depth input items rest h => ?_, fun depth input fields rest h => ?_⟩
      · exact scanValue_weight (hItems _ _ _ _) (hFields _ _ _ _) h
      · obtain ⟨less, value, left, hLess, hFirst, hShape⟩ := scanItems_some h
        obtain rfl := Nat.succ.inj hLess
        have hRead := hValue _ _ _ _ hFirst
        have hSkip := skipSpace_length left
        rcases hShape with ⟨hEnd, rfl⟩ | ⟨tail, others, hComma, hRest, rfl⟩
        · rw [hEnd, List.length_cons] at hSkip
          simp only [itemsWeight]
          omega
        · have hMore := hItems _ _ _ _ hRest
          have hTail := skipSpace_length tail
          rw [hComma, List.length_cons] at hSkip
          simp only [itemsWeight]
          omega
      · obtain ⟨less, word, key, afterKey, afterColon, value, left, hLess, rfl, hKey, hColon, hFirst, hShape⟩ := scanFields_some h
        obtain rfl := Nat.succ.inj hLess
        obtain ⟨extent, hWord, -⟩ := scanString_extent hKey
        have hRead := hValue _ _ _ _ hFirst
        have hAfter := skipSpace_length afterColon
        have hGap := skipSpace_length afterKey
        have hSkip := skipSpace_length left
        have hLength : afterKey.length ≤ word.length := by
          rw [hWord, List.length_append]
          exact Nat.le_add_left _ _
        rw [hColon, List.length_cons] at hGap
        rcases hShape with ⟨hEnd, rfl⟩ | ⟨tail, others, hComma, hRest, rfl⟩
        · rw [hEnd, List.length_cons] at hSkip
          simp only [fieldsWeight, List.length_cons]
          omega
        · have hMore := hFields _ _ _ _ hRest
          have hTail := skipSpace_length tail
          rw [hComma, List.length_cons] at hSkip
          simp only [fieldsWeight, List.length_cons]
          omega

theorem loads_weight {depth : Option Nat} {input : Text} {value : Value} (h : loads overwrite depth input = .ok value) :
    weight value ≤ input.length := by
  rw [loads] at h
  split at h
  · cases h
  rw [decode, bind_ok] at h
  obtain ⟨⟨found, rest⟩, hFound, h⟩ := h
  simp only at h
  split at h
  · cases h
    have hScan := (scan_weight _).1 _ _ _ _ hFound
    have hSkip := skipSpace_length input
    omega
  · cases h

end PyJson
