import DrawFormula.Json.Printer
import DrawFormula.Json.Reader
import DrawFormula.Proofs.Text.Integer

/-! # Indented text that is read back

A value without fractions is read back from its indented text, provided that its integers have no
more digits than are read and that no object has a name twice. The induction is on the value; what
is read after it begins with a line break, a comma or nothing, so that no numeral runs on.
-/
namespace DrawFormula.Json
variable {c : Char} {t rest : Text} {depth fuel : ℕ}

mutual

/-- Whether a value has no fractions, readable integers and no name twice in an object. -/
def Plain : Json → Prop
  | .null | .bool _ | .str _ => True
  | .int i => Text.isWritable i = true
  | .float _ => False
  | .arr items => PlainItems items
  | .obj fields => (fields.map Prod.fst).Nodup ∧ PlainFields fields

/-- Whether all items are plain. -/
def PlainItems : List Json → Prop
  | [] => True
  | v :: rest => Plain v ∧ PlainItems rest

/-- Whether the values of all fields are plain. -/
def PlainFields : List (Text × Json) → Prop
  | [] => True
  | (_, v) :: rest => Plain v ∧ PlainFields rest

end

/-! ## Strings -/

theorem hexValue?_digitChar {n : ℕ} (h : n < 16) : hexValue? (Nat.digitChar n) = some n := by
  have hall : ∀ n < 16, hexValue? (Nat.digitChar n) = some n := by decide
  exact hall n h

theorem hexValue4?_hexadecimal {n : ℕ} (h : n < 65536) : ∃ a b c d,
    Text.hexadecimal 4 n = [a,b,c,d] ∧ hexValue4? a b c d = some n := by
  refine ⟨_,_,_,_,rfl,?_⟩
  simp only [hexValue4?,hexValue?_digitChar (Nat.mod_lt _ (by decide : 0 < 16)),Option.bind_eq_bind,
    Option.bind_some,Option.pure_def,Option.some.injEq]
  omega

/-- The string that begins with a character. -/
def startedWith (c : Char) (p : Text × Text) : Text × Text := (c :: p.1,p.2)

theorem readString_simple {c' : Char} (hc : c ≠ 'u') (h : simpleEscape? c = some c') (t : Text) :
    readString ('\\' :: c :: t) = (readString t).map (startedWith c') := by
  rw [readString.eq_5 c t (fun _ _ _ _ _ _ _ _ _ hu => absurd hu hc)
    (fun _ _ _ _ _ hu => absurd hu hc),h]
  rfl

theorem loneUnit_of_lt {n : ℕ} (h : n < 0xd800) : loneUnit n = Char.ofNat n :=
  if_neg fun hrange => absurd hrange.1 (by omega)

theorem joinSurrogates?_of_lt {n : ℕ} (h : n < 0xd800) (low : ℕ) : joinSurrogates? n low = none :=
  if_neg fun hrange => absurd hrange.1 (by omega)

/-- A code unit that is no surrogate is not joined with what follows. -/
theorem readString_unit {a b c d : Char} {n : ℕ} (h : hexValue4? a b c d = some n) (hn : n < 0xd800)
    (t : Text) : readString ('\\' :: 'u' :: a :: b :: c :: d :: t) =
      (readString t).map (startedWith (Char.ofNat n)) := by
  by_cases hunit : ∃ e f g i rest, t = '\\' :: 'u' :: e :: f :: g :: i :: rest
  · obtain ⟨e,f,g,i,rest,rfl⟩ := hunit
    have hnone : (hexValue4? e f g i).bind (joinSurrogates? n) = none := by
      cases hexValue4? e f g i with
      | none => rfl
      | some low => exact joinSurrogates?_of_lt hn low
    rw [readString.eq_3,h,Option.bind_some,hnone,loneUnit_of_lt hn]
    rfl
  · rw [readString.eq_4 _ _ _ _ _ fun e f g i rest ht => hunit ⟨e,f,g,i,rest,ht⟩,h,Option.bind_some,
      loneUnit_of_lt hn]
    rfl

theorem readString_plain (hquote : c ≠ '"') (hslash : c ≠ '\\') (hcontrol : ¬ c.toNat < 0x20)
    (t : Text) : readString (c :: t) = (readString t).map (startedWith c) := by
  rw [readString.eq_6 c t (fun h => hquote h) (fun _ _ _ _ _ _ _ _ _ h => absurd h hslash)
    (fun _ _ _ _ _ h => absurd h hslash) (fun _ _ h => absurd h hslash),if_neg hcontrol]
  rfl

theorem readString_escapeChar (c : Char) (t : Text) :
    readString (escapeChar c ++ t) = (readString t).map (startedWith c) := by
  have hcode {n : ℕ} (hn : c.toNat = n) : Char.ofNat n = c := hn ▸ Char.ofNat_toNat c
  unfold escapeChar
  split
  · next h =>
    rw [h]
    exact readString_simple (by decide) rfl t
  split
  · next h =>
    rw [h]
    exact readString_simple (by decide) rfl t
  split
  · next h =>
    rw [h]
    exact readString_simple (by decide) rfl t
  split
  · next h =>
    rw [h]
    exact readString_simple (by decide) rfl t
  split
  · next h =>
    rw [h]
    exact readString_simple (by decide) rfl t
  split
  · next h => exact hcode h ▸ readString_simple (by decide) rfl t
  split
  · next h => exact hcode h ▸ readString_simple (by decide) rfl t
  split
  · next h =>
    obtain ⟨a,b,c',d,htext,hvalue⟩ := hexValue4?_hexadecimal (n := c.toNat) (by omega)
    rw [htext]
    exact (readString_unit hvalue (by omega) t).trans (by rw [hcode rfl])
  · next hquote hslash _ _ _ _ _ hcontrol => exact readString_plain hquote hslash hcontrol t

theorem readString_flatMap (s rest : Text) :
    readString (s.flatMap escapeChar ++ '"' :: rest) = some (s,rest) := by
  induction s with
  | nil => rw [List.flatMap_nil,List.nil_append,readString]
  | cons c s ih =>
    rw [List.flatMap_cons,List.append_assoc,readString_escapeChar,ih]
    rfl

/-! ## Integers -/

/-- Whether a numeral that stands before a text ends there. -/
def Stops (t : Text) : Prop :=
  ∀ c ∈ t.head?, isAsciiDigit c = false ∧ c ≠ '.' ∧ c ≠ 'e' ∧ c ≠ 'E'

theorem stops_cons (h : isAsciiDigit c = false ∧ c ≠ '.' ∧ c ≠ 'e' ∧ c ≠ 'E') (t : Text) :
    Stops (c :: t) := by
  intro c' hc'
  obtain rfl := Option.some.inj hc'
  exact h

theorem isAsciiDigit_of_isDigit (h : c.isDigit) : isAsciiDigit c = true := by
  have hc := Text.toNat_of_isDigit h
  simp only [isAsciiDigit,Bool.and_eq_true,decide_eq_true_eq,Char.le_def,UInt32.le_iff_toNat_le]
  exact hc

theorem Stops.takeWhile_eq (h : Stops rest) : rest.takeWhile isAsciiDigit = [] := by
  cases rest with
  | nil => rfl
  | cons c rest => exact List.takeWhile_cons_of_neg (by simp [(h c rfl).1])

theorem Stops.dropWhile_eq (h : Stops rest) : rest.dropWhile isAsciiDigit = rest := by
  cases rest with
  | nil => rfl
  | cons c rest => exact List.dropWhile_cons_of_neg (by simp [(h c rfl).1])

theorem Stops.fractionPart_eq (h : Stops rest) : fractionPart rest = (none,rest) := by
  unfold fractionPart
  split
  · exact absurd rfl (h '.' rfl).2.1
  · rfl

theorem Stops.exponentPart_eq (h : Stops rest) : exponentPart rest = (none,rest) := by
  unfold exponentPart
  split
  · next c rest =>
    have hc := (h c rfl).2.2
    rw [if_neg (by rintro (rfl | rfl) <;> simp at hc)]
  · rfl

theorem wholePart?_ofNat (n : ℕ) (h : Stops rest) :
    wholePart? (Text.ofNat n ++ rest) = some (Text.ofNat n,rest) := by
  have hdigits : ∀ c ∈ Text.ofNat n, isAsciiDigit c = true :=
    fun c hc => isAsciiDigit_of_isDigit (Text.isDigit_of_mem_ofNat hc)
  unfold wholePart?
  split
  · next rest' heq =>
    obtain ⟨c,digits,hcons⟩ := List.exists_cons_of_ne_nil (Text.ofNat_ne_nil n)
    rw [hcons,List.cons_append,List.cons.injEq] at heq
    obtain ⟨rfl,rfl⟩ := heq
    obtain rfl := Text.eq_nil_of_ofNat_eq hcons
    rw [hcons,List.nil_append]
  · rw [List.takeWhile_append_of_pos hdigits,List.dropWhile_append_of_pos hdigits,h.takeWhile_eq,
      h.dropWhile_eq,List.append_nil]
    simp [Text.ofNat_ne_nil]

theorem readUnsigned_ofNat {n : ℕ} (negative : Bool) (hn : n < 10 ^ Text.digitLimit)
    (h : Stops rest) : readUnsigned negative (Text.ofNat n ++ rest) =
      .ok (.int (if negative then -n else n),rest) := by
  unfold readUnsigned
  rw [wholePart?_ofNat n h]
  simp only [h.fractionPart_eq,h.exponentPart_eq,Text.readDigits_ofNat hn]
  rfl

theorem readScalar_of_digit (h : c.isDigit) (t : Text) :
    readScalar (c :: t) = readUnsigned false (c :: t) := by
  unfold readScalar
  split
  case h_8 => rfl
  all_goals
    rename_i heq
    cases heq
    exact absurd h (by decide)

theorem readScalar_of_minus (h : c.isDigit) (t : Text) :
    readScalar ('-' :: c :: t) = readUnsigned true (c :: t) := by
  unfold readScalar
  split
  case h_7 heq =>
    cases heq
    rfl
  case h_6 heq =>
    cases heq
    exact absurd h (by decide)
  case h_8 hminus => exact absurd rfl (hminus (c :: t))
  all_goals
    rename_i heq
    cases heq

theorem readScalar_ofInt {i : ℤ} (hi : Text.isWritable i = true) (h : Stops rest) :
    readScalar (Text.ofInt i ++ rest) = .ok (.int i,rest) := by
  have hsize : i.natAbs < 10 ^ Text.digitLimit := Text.isWritable_iff.mp hi
  obtain ⟨c,digits,hcons⟩ := List.exists_cons_of_ne_nil (Text.ofNat_ne_nil i.natAbs)
  have hdigit : c.isDigit := Text.isDigit_of_mem_ofNat (hcons ▸ List.mem_cons_self)
  rw [Text.ofInt_eq]
  by_cases hneg : i < 0
  · have hread := readUnsigned_ofNat true hsize h
    rw [hcons] at hread
    rw [if_pos hneg,hcons]
    refine (readScalar_of_minus hdigit _).trans (hread.trans ?_)
    rw [if_pos rfl,Int.ofNat_natAbs_of_nonpos hneg.le,neg_neg]
  · have hread := readUnsigned_ofNat false hsize h
    rw [hcons] at hread
    rw [if_neg hneg,hcons]
    refine (readScalar_of_digit hdigit _).trans (hread.trans ?_)
    rw [if_neg (by decide),Int.natAbs_of_nonneg (not_lt.mp hneg)]

/-- Which characters a numeral does not begin with. -/
theorem exists_cons_ofInt (i : ℤ) : ∃ c t, Text.ofInt i = c :: t ∧
    ∀ other : Char, other ≠ '-' → other.isDigit = false → c ≠ other := by
  obtain ⟨c,digits,hcons⟩ := List.exists_cons_of_ne_nil (Text.ofNat_ne_nil i.natAbs)
  have hdigit : c.isDigit := Text.isDigit_of_mem_ofNat (hcons ▸ List.mem_cons_self)
  rw [Text.ofInt_eq]
  by_cases hneg : i < 0
  · rw [if_pos hneg]
    exact ⟨'-',_,rfl,fun other hminus _ => hminus.symm⟩
  · rw [if_neg hneg,hcons]
    refine ⟨c,_,rfl,fun other _ hother heq => ?_⟩
    rw [heq,hother] at hdigit
    cases hdigit

/-! ## Layout -/

theorem skipSpace_cons (h : isSpace c = false) (t : Text) : skipSpace (c :: t) = c :: t :=
  List.dropWhile_cons_of_neg (by simp [h])

theorem skipSpace_breakLine (h : isSpace c = false) (depth : ℕ) (t : Text) :
    skipSpace (breakLine depth ++ c :: t) = c :: t := by
  have hspaces : ∀ c ∈ breakLine depth, isSpace c = true := by
    intro c hc
    rcases List.mem_cons.mp hc with rfl | hblank
    · decide
    · rw [List.eq_of_mem_replicate hblank]
      decide
  rw [skipSpace,List.dropWhile_append_of_pos hspaces]
  exact skipSpace_cons h t

theorem stops_breakLine (depth : ℕ) (t : Text) : Stops (breakLine depth ++ t) :=
  stops_cons (by decide) _

theorem stops_nil : Stops [] := nofun

/-- A plain value begins with a character that is no space and ends no list. -/
theorem exists_cons_indentedAt {v : Json} (h : Plain v) (depth : ℕ) :
    ∃ c t, indentedAt depth v = c :: t ∧ isSpace c = false ∧ c ≠ ']' := by
  cases v with
  | null => exact ⟨_,_,rfl,by decide,by decide⟩
  | bool b => cases b <;> exact ⟨_,_,rfl,by decide,by decide⟩
  | int i =>
    obtain ⟨c,t,hcons,hother⟩ := exists_cons_ofInt i
    refine ⟨c,t,hcons,?_,hother ']' (by decide) (by decide)⟩
    simp only [isSpace,Bool.or_eq_false_iff,decide_eq_false_iff_not]
    exact ⟨⟨⟨hother _ (by decide) (by decide),hother _ (by decide) (by decide)⟩,
      hother _ (by decide) (by decide)⟩,hother _ (by decide) (by decide)⟩
  | float x => exact absurd h id
  | str s => exact ⟨_,_,rfl,by decide,by decide⟩
  | arr items =>
    rw [indentedAt,enclose]
    split <;> exact ⟨_,_,rfl,by decide,by decide⟩
  | obj fields =>
    rw [indentedAt,enclose]
    split <;> exact ⟨_,_,rfl,by decide,by decide⟩

theorem skipSpace_indentedAt {v : Json} (h : Plain v) (depth : ℕ) (rest : Text) :
    skipSpace (indentedAt depth v ++ rest) = indentedAt depth v ++ rest := by
  obtain ⟨c,t,hcons,hspace,-⟩ := exists_cons_indentedAt h depth
  rw [hcons]
  exact skipSpace_cons hspace _

/-! ## Values -/

theorem readValue_of_scalar (h : c ≠ '"' ∧ c ≠ '[' ∧ c ≠ '\x7b') (fuel : ℕ) (t : Text) :
    readValue (fuel + 1) (c :: t) = readScalar (c :: t) := by
  unfold readValue
  split
  · next heq =>
    cases heq
    exact absurd rfl h.1
  · next heq =>
    cases heq
    exact absurd rfl h.2.1
  · next heq =>
    cases heq
    exact absurd rfl h.2.2
  · rfl

theorem readValue_quote (fuel : ℕ) (s rest : Text) :
    readValue (fuel + 1) (stringText s ++ rest) = .ok (.str s,rest) := by
  rw [stringText,List.cons_append,List.append_assoc,readValue]
  simp only [List.singleton_append,readString_flatMap]

theorem readValue_bracket {t next : Text} (hc : c ≠ ']') (h : skipSpace t = c :: next) (fuel : ℕ) :
    readValue (fuel + 1) ('[' :: t) =
      (readItems fuel (c :: next)).map fun p => (.arr p.1,p.2) := by
  rw [readValue,h]
  split
  · next heq =>
    cases heq
    exact absurd rfl hc
  · rfl

theorem readValue_brace {t next : Text} (hc : c ≠ '\x7d') (h : skipSpace t = c :: next) (fuel : ℕ) :
    readValue (fuel + 1) ('\x7b' :: t) =
      (readFields fuel [] (c :: next)).map fun p => (.obj p.1,p.2) := by
  rw [readValue,h]
  split
  · next heq =>
    cases heq
    exact absurd rfl hc
  · rfl

theorem readItems_last {fuel : ℕ} {t rest : Text} {v : Json} {depth : ℕ}
    (h : readValue fuel t = .ok (v,breakLine depth ++ ']' :: rest)) :
    readItems (fuel + 1) t = .ok ([v],rest) := by
  rw [readItems,h]
  simp only [skipSpace_breakLine (show isSpace ']' = false by decide)]

theorem readItems_more {fuel : ℕ} {t next : Text} {v : Json}
    (h : readValue fuel t = .ok (v,',' :: next)) :
    readItems (fuel + 1) t =
      (readItems fuel (skipSpace next)).map fun p => (v :: p.1,p.2) := by
  rw [readItems,h]
  simp only [skipSpace_cons (show isSpace ',' = false by decide)]

theorem readFields_last (before : List (Text × Json)) (name : Text) {fuel depth : ℕ}
    {t rest : Text} {v : Json} (hstart : skipSpace t = t)
    (h : readValue fuel t = .ok (v,breakLine depth ++ '\x7d' :: rest)) :
    readFields (fuel + 1) before (stringText name ++ ':' :: ' ' :: t) =
      .ok (setField name v before,rest) := by
  have hspace : skipSpace (' ' :: t) = t := hstart
  rw [stringText,List.cons_append,List.append_assoc,readFields]
  simp only [List.singleton_append,readString_flatMap,
    skipSpace_cons (show isSpace ':' = false by decide),hspace,h,
    skipSpace_breakLine (show isSpace '\x7d' = false by decide)]

theorem readFields_more (before : List (Text × Json)) (name : Text) {fuel : ℕ} {t next : Text}
    {v : Json} (hstart : skipSpace t = t) (h : readValue fuel t = .ok (v,',' :: next)) :
    readFields (fuel + 1) before (stringText name ++ ':' :: ' ' :: t) =
      readFields fuel (setField name v before) (skipSpace next) := by
  have hspace : skipSpace (' ' :: t) = t := hstart
  rw [stringText,List.cons_append,List.append_assoc,readFields]
  simp only [List.singleton_append,readString_flatMap,
    skipSpace_cons (show isSpace ':' = false by decide),hspace,h,
    skipSpace_cons (show isSpace ',' = false by decide)]

theorem setField_of_new {before : List (Text × Json)} {name : Text} (h : name ∉ before.map Prod.fst)
    (v : Json) : setField name v before = before ++ [(name,v)] := by
  induction before with
  | nil => rfl
  | cons first before ih =>
    obtain ⟨hfirst,hrest⟩ := not_or.mp (List.mem_cons.not.mp h)
    rw [setField,if_neg (Ne.symm hfirst),ih hrest]
    rfl

theorem new_of_nodup {before rest : List (Text × Json)} {name : Text} {v : Json}
    (h : ((before ++ (name,v) :: rest).map Prod.fst).Nodup) : name ∉ before.map Prod.fst := by
  rw [List.map_append,List.map_cons] at h
  exact fun hmem => (List.nodup_append.mp h).2.2 name hmem name List.mem_cons_self rfl

theorem stops_comma (t : Text) : Stops (',' :: t) := stops_cons (by decide) t

/-- The items of a list, each on its own line, without the brackets. -/
def itemLines (depth : ℕ) (items : List Json) : Text :=
  joinWith (',' :: breakLine depth) (indentedItems depth items)

/-- The fields of an object, each on its own line, without the braces. -/
def fieldLines (depth : ℕ) (fields : List (Text × Json)) : Text :=
  joinWith (',' :: breakLine depth) (indentedFields depth fields)

theorem itemLines_singleton (depth : ℕ) (v : Json) : itemLines depth [v] = indentedAt depth v := by
  rw [itemLines,indentedItems,indentedItems,joinWith,List.intercalate_singleton]

theorem itemLines_cons_cons (depth : ℕ) (v w : Json) (rest : List Json) :
    itemLines depth (v :: w :: rest) =
      indentedAt depth v ++ ',' :: (breakLine depth ++ itemLines depth (w :: rest)) := by
  rw [itemLines,indentedItems,indentedItems,joinWith,List.intercalate_cons_cons,itemLines,joinWith,
    indentedItems,List.append_assoc]
  rfl

theorem fieldLines_singleton (depth : ℕ) (name : Text) (v : Json) :
    fieldLines depth [(name,v)] = stringText name ++ ':' :: ' ' :: indentedAt depth v := by
  rw [fieldLines,indentedFields,indentedFields,joinWith,List.intercalate_singleton]

theorem fieldLines_cons_cons (depth : ℕ) (name : Text) (v : Json) (f : Text × Json)
    (rest : List (Text × Json)) : fieldLines depth ((name,v) :: f :: rest) =
      stringText name ++ ':' :: ' ' :: (indentedAt depth v ++
        ',' :: (breakLine depth ++ fieldLines depth (f :: rest))) := by
  rw [fieldLines,indentedFields,indentedFields,joinWith,List.intercalate_cons_cons,fieldLines,
    joinWith,indentedFields,List.append_assoc,List.append_assoc]
  rfl

theorem indentedAt_arr {items : List Json} (h : items ≠ []) (depth : ℕ) :
    indentedAt depth (.arr items) = '[' :: (breakLine (depth + 1) ++
      (itemLines (depth + 1) items ++ (breakLine depth ++ [']']))) := by
  cases items with
  | nil => exact absurd rfl h
  | cons v rest =>
    rw [indentedAt,enclose,indentedItems]
    simp [itemLines,indentedItems]

theorem indentedAt_obj {fields : List (Text × Json)} (h : fields ≠ []) (depth : ℕ) :
    indentedAt depth (.obj fields) = '\x7b' :: (breakLine (depth + 1) ++
      (fieldLines (depth + 1) fields ++ (breakLine depth ++ ['\x7d']))) := by
  cases fields with
  | nil => exact absurd rfl h
  | cons f rest =>
    rw [indentedAt,enclose,indentedFields]
    simp [fieldLines,indentedFields]

theorem exists_cons_itemLines {items : List Json} (h : items ≠ []) (hplain : PlainItems items)
    (depth : ℕ) : ∃ c t, itemLines depth items = c :: t ∧ isSpace c = false ∧ c ≠ ']' := by
  match items, h, hplain with
  | [v], _, hplain =>
    rw [itemLines_singleton]
    exact exists_cons_indentedAt hplain.1 depth
  | v :: w :: rest, _, hplain =>
    obtain ⟨c,t,hcons,hc⟩ := exists_cons_indentedAt hplain.1 depth
    rw [itemLines_cons_cons,hcons]
    exact ⟨c,_,rfl,hc⟩

theorem exists_cons_fieldLines {fields : List (Text × Json)} (h : fields ≠ []) (depth : ℕ) :
    ∃ t, fieldLines depth fields = '"' :: t := by
  match fields, h with
  | [(name,v)], _ => exact ⟨_,fieldLines_singleton depth name v⟩
  | (name,v) :: f :: rest, _ => exact ⟨_,fieldLines_cons_cons depth name v f rest⟩

theorem skipSpace_fieldLines {fields : List (Text × Json)} (h : fields ≠ []) (depth : ℕ)
    (rest : Text) : skipSpace (breakLine depth ++ (fieldLines depth fields ++ rest)) =
      fieldLines depth fields ++ rest := by
  obtain ⟨t,hcons⟩ := exists_cons_fieldLines h depth
  rw [hcons]
  exact skipSpace_breakLine (by decide) _ _

mutual

/-- A plain value is read from its indented text, whatever follows. -/
theorem readValue_indentedAt : ∀ (v : Json) (depth fuel : ℕ) (rest : Text), Plain v → Stops rest →
    (indentedAt depth v).length < fuel →
    readValue fuel (indentedAt depth v ++ rest) = .ok (v,rest)
  | _, _, 0, _, _, _, hfuel => absurd hfuel (Nat.not_lt_zero _)
  | .null, _, fuel + 1, rest, _, _, _ => readValue_of_scalar (by decide) fuel _
  | .bool true, _, fuel + 1, rest, _, _, _ => readValue_of_scalar (by decide) fuel _
  | .bool false, _, fuel + 1, rest, _, _, _ => readValue_of_scalar (by decide) fuel _
  | .int i, depth, fuel + 1, rest, hi, hrest, _ => by
    obtain ⟨c,t,hcons,hother⟩ := exists_cons_ofInt i
    have hscalar := readScalar_ofInt hi hrest
    rw [indentedAt]
    rw [hcons] at hscalar ⊢
    refine (readValue_of_scalar ⟨?_,?_,?_⟩ fuel _).trans hscalar <;>
      exact hother _ (by decide) (by decide)
  | .float _, _, _ + 1, _, h, _, _ => absurd h id
  | .str s, depth, fuel + 1, rest, _, _, _ => readValue_quote fuel s rest
  | .arr [], _, fuel + 1, rest, _, _, _ => rfl
  | .arr (v :: items), depth, fuel + 1, rest, h, _, hfuel => by
    have hne := List.cons_ne_nil v items
    obtain ⟨c,t,hcons,hspace,hc⟩ := exists_cons_itemLines hne h (depth + 1)
    rw [indentedAt_arr hne,List.length_cons] at hfuel
    simp only [List.length_append,List.length_singleton] at hfuel
    have hread := readItems_itemLines (v :: items) (depth + 1) depth fuel rest hne h (by omega)
    rw [indentedAt_arr hne]
    simp only [List.cons_append,List.append_assoc,List.nil_append] at hread ⊢
    rw [hcons,List.cons_append] at hread ⊢
    rw [readValue_bracket hc (skipSpace_breakLine hspace _ _),hread]
    rfl
  | .obj [], _, fuel + 1, rest, _, _, _ => rfl
  | .obj (f :: fields), depth, fuel + 1, rest, h, _, hfuel => by
    have hne := List.cons_ne_nil f fields
    obtain ⟨t,hcons⟩ := exists_cons_fieldLines hne (depth + 1)
    rw [indentedAt_obj hne,List.length_cons] at hfuel
    simp only [List.length_append,List.length_singleton] at hfuel
    have hread := readFields_fieldLines (f :: fields) (depth + 1) depth fuel [] rest hne h.2
      (by simpa using h.1) (by omega)
    rw [indentedAt_obj hne]
    simp only [List.cons_append,List.append_assoc,List.nil_append] at hread ⊢
    rw [hcons,List.cons_append] at hread ⊢
    rw [readValue_brace (by decide) (skipSpace_breakLine (by decide) _ _),hread]
    rfl

/-- Plain items are read from their lines up to the closing bracket. -/
theorem readItems_itemLines : ∀ (items : List Json) (depth outer fuel : ℕ) (rest : Text),
    items ≠ [] → PlainItems items → (itemLines depth items).length + 1 < fuel →
    readItems fuel (itemLines depth items ++ (breakLine outer ++ ']' :: rest)) = .ok (items,rest)
  | [], _, _, _, _, hne, _, _ => absurd rfl hne
  | _ :: _, _, _, 0, _, _, _, hfuel => absurd hfuel (Nat.not_lt_zero _)
  | [v], depth, outer, fuel + 1, rest, _, h, hfuel => by
    rw [itemLines_singleton] at hfuel ⊢
    exact readItems_last (readValue_indentedAt v depth fuel _ h.1 (stops_breakLine _ _) (by omega))
  | v :: w :: more, depth, outer, fuel + 1, rest, _, h, hfuel => by
    have hne := List.cons_ne_nil w more
    obtain ⟨c,t,hcons,hspace,-⟩ := exists_cons_itemLines hne h.2 depth
    rw [itemLines_cons_cons] at hfuel ⊢
    simp only [List.length_append,List.length_cons] at hfuel
    have hfirst := readValue_indentedAt v depth fuel
      (',' :: (breakLine depth ++ (itemLines depth (w :: more) ++
        (breakLine outer ++ ']' :: rest)))) h.1 (stops_comma _) (by omega)
    have hmore := readItems_itemLines (w :: more) depth outer fuel rest hne h.2 (by omega)
    simp only [List.append_assoc,List.cons_append]
    rw [readItems_more hfirst]
    rw [hcons,List.cons_append] at hmore ⊢
    rw [skipSpace_breakLine hspace,hmore]
    rfl

/-- Plain fields of new names are read from their lines up to the closing brace. -/
theorem readFields_fieldLines : ∀ (fields : List (Text × Json)) (depth outer fuel : ℕ)
    (before : List (Text × Json)) (rest : Text), fields ≠ [] → PlainFields fields →
    ((before ++ fields).map Prod.fst).Nodup → (fieldLines depth fields).length < fuel →
    readFields fuel before (fieldLines depth fields ++ (breakLine outer ++ '\x7d' :: rest)) =
      .ok (before ++ fields,rest)
  | [], _, _, _, _, _, hne, _, _, _ => absurd rfl hne
  | _ :: _, _, _, 0, _, _, _, _, _, hfuel => absurd hfuel (Nat.not_lt_zero _)
  | [(name,v)], depth, outer, fuel + 1, before, rest, _, h, hnodup, hfuel => by
    have hstart := skipSpace_indentedAt h.1 depth (breakLine outer ++ '\x7d' :: rest)
    rw [fieldLines_singleton] at hfuel ⊢
    simp only [List.length_append,List.length_cons] at hfuel
    have hfirst := readValue_indentedAt v depth fuel (breakLine outer ++ '\x7d' :: rest) h.1
      (stops_breakLine _ _) (by omega)
    rw [List.append_assoc,← setField_of_new (new_of_nodup hnodup)]
    exact readFields_last before name hstart hfirst
  | (name,v) :: f :: more, depth, outer, fuel + 1, before, rest, _, h, hnodup, hfuel => by
    have hne := List.cons_ne_nil f more
    rw [fieldLines_cons_cons] at hfuel ⊢
    simp only [List.length_append,List.length_cons] at hfuel
    let last := breakLine outer ++ '\x7d' :: rest
    let next := breakLine depth ++ (fieldLines depth (f :: more) ++ last)
    have hstart := skipSpace_indentedAt h.1 depth (',' :: next)
    have hfirst := readValue_indentedAt v depth fuel (',' :: next) h.1 (stops_comma _) (by omega)
    have hmore := readFields_fieldLines (f :: more) depth outer fuel (before ++ [(name,v)]) rest hne
      h.2 (by simpa using hnodup) (by omega)
    have hfield := readFields_more before name hstart hfirst
    rw [setField_of_new (new_of_nodup hnodup),skipSpace_fieldLines hne,hmore] at hfield
    simpa [next] using hfield

end

/-- A plain value is read back from its indented text. -/
theorem read_indented {v : Json} (h : Plain v) : read v.indented = .ok v := by
  have hread := readValue_indentedAt v 0 _ [] h stops_nil (Nat.lt_succ_self _)
  have hstart := skipSpace_indentedAt h 0 []
  rw [List.append_nil] at hread hstart
  rw [read,indented,hstart,hread]
  rfl

end DrawFormula.Json
