import Mathlib.Data.List.Forall2
import Trellis.Tokenizer.Character

/-!
# The character tokenizer reads back what it spells

The token of an ASCII character stands two places behind its code point, clear of the tokens that
have a text of their own, so a character is decoded from its token (`decode_encode`).  Between the
start and the end token and the tokens of several characters this leaves no gap: every token below
the size is one of them (`cases_of_lt_size`), and all but the end token have a text
(`exists_decode_iff`).

Texts and tokens are worked on one by one, so both directions keep what stands in a row
(`tokenize_append`, `detokenize_append`), refusals included, and a text is decoded from its spelling
unless an end token stands behind it (`detokenize_of_tokenize_between`).
-/

namespace Trellis

/-! ## Work on each of a list -/

section Rows

variable {ε α β γ : Type}

/-- Two results in a row succeed when each of them does. -/
theorem inRow_eq_ok_iff {x : Except ε α} {y : Except ε β} {f : α → β → γ} {c : γ} :
    (do let a ← x; let b ← y; return f a b) = .ok c
      ↔ ∃ a b, x = .ok a ∧ y = .ok b ∧ c = f a b := by
  cases x with
  | error cause => exact ⟨nofun, nofun⟩
  | ok a =>
    cases y with
    | error cause => exact ⟨nofun, nofun⟩
    | ok b =>
      constructor
      · intro h
        cases h
        exact ⟨a, b, rfl, rfl, rfl⟩
      · rintro ⟨_, _, first, later, rfl⟩
        cases first
        cases later
        rfl

/-- Work on a list succeeds when the work on each member does. -/
theorem exists_mapM_iff {f : α → Except ε β} {as : List α} :
    (∃ bs, as.mapM f = .ok bs) ↔ ∀ a ∈ as, ∃ b, f a = .ok b := by
  induction as with
  | nil => exact ⟨fun _ => nofun, fun _ => ⟨[], rfl⟩⟩
  | cons a as ih =>
    rw [List.forall_mem_cons, ← ih, List.mapM_cons]
    simp only [inRow_eq_ok_iff]
    constructor
    · rintro ⟨_, b, bs, first, later, rfl⟩
      exact ⟨⟨b, first⟩, bs, later⟩
    · rintro ⟨⟨b, first⟩, bs, later⟩
      exact ⟨_, b, bs, first, later, rfl⟩

end Rows

namespace Tokenizer.Character

/-! ## One character -/

theorem toNat_ofNat {n : Nat} (h : n < 128) : (UInt32.ofNat n).toNat = n :=
  UInt32.toNat_ofNat_of_lt' (Nat.lt_trans h (by decide))

theorem toNat_ascii {n : Nat} (h : n < 128) : (UInt32.ofNat n + firstAscii).toNat = n + 2 := by
  have small := toNat_ofNat h
  rw [UInt32.toNat_add, small]
  change (n + 2) % 2 ^ 32 = n + 2
  omega

theorem decode_ascii {n : Nat} (h : n < 128) :
    decode (UInt32.ofNat n + firstAscii) = .ok [Char.ofNat n] := by
  have place := toNat_ascii h
  have other : ∀ id : TokenId, id.toNat < 2 ∨ 130 ≤ id.toNat →
      UInt32.ofNat n + firstAscii ≠ id := by
    intro id outside e
    rw [← e, place] at outside
    omega
  have below : UInt32.ofNat n + firstAscii < theId := by
    rw [UInt32.lt_iff_toNat_lt, place]
    change n + 2 < 130
    omega
  have back : (UInt32.ofNat n + firstAscii - firstAscii).toNat = n := by
    rw [UInt32.add_sub_cancel, toNat_ofNat h]
  rw [decode, if_neg (other _ (by decide)), if_neg (other _ (by decide)),
    if_neg (other _ (by decide)), if_neg (other _ (by decide)), if_neg (other _ (by decide)),
    if_neg (other _ (by decide)), if_pos below, back]

section Encode

variable {c : Char} {id : TokenId}

theorem eq_of_encode (h : encode c = .ok id) :
    c = 'é' ∧ id = eAcuteId ∨ c.toNat < 128 ∧ id = UInt32.ofNat c.toNat + firstAscii := by
  unfold encode at h
  split at h
  · next accented =>
    cases h
    exact .inl ⟨accented, rfl⟩
  · split at h
    · next ascii =>
      cases h
      exact .inr ⟨ascii, rfl⟩
    · cases h

/-- A character is decoded from its token. -/
theorem decode_encode (h : encode c = .ok id) : decode id = .ok [c] := by
  rcases eq_of_encode h with ⟨rfl, rfl⟩ | ⟨ascii, rfl⟩
  · rfl
  · rw [decode_ascii ascii, Char.ofNat_toNat]

theorem encode_lt (h : encode c = .ok id) : id.toNat < size := by
  rcases eq_of_encode h with ⟨rfl, rfl⟩ | ⟨ascii, rfl⟩
  · decide
  · rw [toNat_ascii ascii, size]
    omega

/-- The characters that have a token: the ASCII ones and `é`. -/
def IsSpelled (c : Char) : Prop := c.toNat < 128 ∨ c.toNat = 0xE9

theorem exists_encode_iff : (∃ id, encode c = .ok id) ↔ IsSpelled c := by
  have accent : c = 'é' ↔ c.toNat = 0xE9 := Char.toNat_inj.symm
  rw [IsSpelled, ← accent]
  constructor
  · rintro ⟨id, spelled⟩
    rcases eq_of_encode spelled with ⟨accented, _⟩ | ⟨ascii, _⟩
    · exact .inr accented
    · exact .inl ascii
  · intro known
    unfold encode
    split
    · exact ⟨_, rfl⟩
    · next plain => exact ⟨_, if_pos (known.resolve_right plain)⟩

end Encode

/-! ## One token -/

section Decode

variable {id : TokenId}

/-- The tokens that have a text, be it the empty one. -/
def HasText (id : TokenId) : Prop := id.toNat < size ∧ id ≠ stopId

/-- The vocabulary without gaps, place by place. -/
theorem cases_of_lt_size (inside : id.toNat < size) :
    id = startId ∨ id = stopId ∨ (∃ n < 128, id = UInt32.ofNat n + firstAscii) ∨ id = theId
      ∨ id = eAcuteId ∨ id = blankLineId ∨ id = worldId := by
  have places : id.toNat = 0 ∨ id.toNat = 1 ∨ id.toNat - 2 < 128 ∧ id.toNat = id.toNat - 2 + 2
      ∨ id.toNat = 130 ∨ id.toNat = 131 ∨ id.toNat = 132 ∨ id.toNat = 133 := by
    rw [size] at inside
    omega
  have same : ∀ other : TokenId, id.toNat = other.toNat → id = other :=
    fun other => UInt32.toNat_inj.1
  rcases places with start | stop | ⟨ascii, place⟩ | the | eAcute | blankLine | world
  · exact .inl (same _ start)
  · exact .inr (.inl (same _ stop))
  · exact .inr (.inr (.inl ⟨_, ascii, same _ (place.trans (toNat_ascii ascii).symm)⟩))
  · exact .inr (.inr (.inr (.inl (same _ the))))
  · exact .inr (.inr (.inr (.inr (.inl (same _ eAcute)))))
  · exact .inr (.inr (.inr (.inr (.inr (.inl (same _ blankLine))))))
  · exact .inr (.inr (.inr (.inr (.inr (.inr (same _ world))))))

theorem decode_stop : decode stopId = .error (.noText stopId) := rfl

theorem decode_of_size_le (outside : size ≤ id.toNat) :
    decode id = .error (.outsideVocabulary id) := by
  have other : ∀ known : TokenId, known.toNat < size → id ≠ known := by
    rintro known inside rfl
    omega
  have above : ¬ id < theId := by
    rw [UInt32.lt_iff_toNat_lt]
    change ¬ id.toNat < 130
    rw [size] at outside
    omega
  rw [decode, if_neg (other _ (by decide)), if_neg (other _ (by decide)),
    if_neg (other _ (by decide)), if_neg (other _ (by decide)), if_neg (other _ (by decide)),
    if_neg (other _ (by decide)), if_neg above]

theorem exists_decode_iff : (∃ cs, decode id = .ok cs) ↔ HasText id := by
  constructor
  · rintro ⟨cs, decodes⟩
    constructor
    · by_contra outside
      cases (decode_of_size_le (Nat.le_of_not_lt outside)).symm.trans decodes
    · rintro rfl
      cases decode_stop.symm.trans decodes
  · rintro ⟨inside, notStop⟩
    rcases cases_of_lt_size inside with rfl | rfl | ⟨n, ascii, rfl⟩ | rfl | rfl | rfl | rfl
    · exact ⟨_, rfl⟩
    · exact absurd rfl notStop
    · exact ⟨_, decode_ascii ascii⟩
    -- what is left are the tokens with a text of their own
    all_goals exact ⟨_, rfl⟩

end Decode

/-! ## Texts -/

theorem encodeAll_eq_mapM (cs : List Char) : encodeAll cs = cs.mapM encode := by
  induction cs with
  | nil => rfl
  | cons c cs ih => rw [encodeAll, List.mapM_cons, ih]

theorem encodeAll_cons_eq_ok_iff {c : Char} {cs : List Char} {ids : List TokenId} :
    encodeAll (c :: cs) = .ok ids
      ↔ ∃ id rest, encode c = .ok id ∧ encodeAll cs = .ok rest ∧ ids = id :: rest := by
  rw [encodeAll]
  exact inRow_eq_ok_iff

theorem exists_encodeAll_iff {cs : List Char} :
    (∃ ids, encodeAll cs = .ok ids) ↔ ∀ c ∈ cs, IsSpelled c := by
  rw [encodeAll_eq_mapM]
  simp only [exists_mapM_iff, exists_encode_iff]

theorem decodeAll_encodeAll {cs : List Char} {ids : List TokenId} (h : encodeAll cs = .ok ids) :
    decodeAll ids = .ok cs := by
  induction cs generalizing ids with
  | nil =>
    cases h
    rfl
  | cons c cs ih =>
    obtain ⟨id, rest, first, later, rfl⟩ := encodeAll_cons_eq_ok_iff.1 h
    rw [decodeAll, decode_encode first, ih later]
    rfl

theorem encodeAll_lt {cs : List Char} {ids : List TokenId} (h : encodeAll cs = .ok ids) :
    ∀ id ∈ ids, id.toNat < size := by
  induction cs generalizing ids with
  | nil =>
    cases h
    exact nofun
  | cons c cs ih =>
    obtain ⟨id, rest, first, later, rfl⟩ := encodeAll_cons_eq_ok_iff.1 h
    exact List.forall_mem_cons.2 ⟨encode_lt first, ih later⟩

theorem encodeAll_append (front back : List Char) :
    encodeAll (front ++ back) = do
      let ids ← encodeAll front
      let more ← encodeAll back
      return ids ++ more := by
  simp only [encodeAll_eq_mapM, List.mapM_append]

theorem tokenize_eq (text : String) :
    character.tokenize text false false = encodeAll text.toList := by
  change (encodeAll text.toList >>= fun ids => pure ([] ++ ids ++ [])) = _
  simp only [List.nil_append, List.append_nil, bind_pure]

theorem tokenize_eq_ok_iff {text : String} {start stop : Bool} {ids : List TokenId} :
    character.tokenize text start stop = .ok ids
      ↔ ∃ spelling, encodeAll text.toList = .ok spelling
        ∧ ids = (if start then [startId] else []) ++ spelling
          ++ (if stop then [stopId] else []) := by
  change (encodeAll text.toList >>= fun spelling => pure _) = _ ↔ _
  cases encodeAll text.toList with
  | error cause => exact ⟨nofun, nofun⟩
  | ok spelling =>
    constructor
    · intro h
      cases h
      exact ⟨spelling, rfl, rfl⟩
    · rintro ⟨_, same, rfl⟩
      cases same
      rfl

/-- A text is spelled when each of its characters is, whatever stands around the spelling. -/
theorem exists_tokenize_iff {text : String} {start stop : Bool} :
    (∃ ids, character.tokenize text start stop = .ok ids) ↔ ∀ c ∈ text.toList, IsSpelled c := by
  rw [← exists_encodeAll_iff]
  simp only [tokenize_eq_ok_iff]
  constructor
  · rintro ⟨_, spelling, spelled, rfl⟩
    exact ⟨spelling, spelled⟩
  · rintro ⟨spelling, spelled⟩
    exact ⟨_, spelling, spelled, rfl⟩

/-- Texts in a row are spelled in a row. -/
theorem tokenize_append (front back : String) :
    character.tokenize (front ++ back) false false = do
      let ids ← character.tokenize front false false
      let more ← character.tokenize back false false
      return ids ++ more := by
  rw [tokenize_eq, tokenize_eq, tokenize_eq, String.toList_append, encodeAll_append]

section Tokenize

variable {text : String} {start stop : Bool} {ids : List TokenId}

/-- **A text is decoded from its spelling.** -/
theorem detokenize_of_tokenize (h : character.tokenize text false false = .ok ids) :
    character.detokenize ids = .ok text := by
  rw [tokenize_eq] at h
  change (decodeAll ids).map String.ofList = _
  rw [decodeAll_encodeAll h]
  exact congrArg Except.ok String.ofList_toList

theorem tokenize_between_lt (h : character.tokenize text start stop = .ok ids) :
    ∀ id ∈ ids, id.toNat < character.vocabSize := by
  obtain ⟨spelling, spelled, rfl⟩ := tokenize_eq_ok_iff.1 h
  rw [List.forall_mem_append, List.forall_mem_append]
  refine ⟨⟨?_, encodeAll_lt spelled⟩, ?_⟩
  · cases start
    · exact nofun
    · exact List.forall_mem_singleton.2 (by decide)
  · cases stop
    · exact nofun
    · exact List.forall_mem_singleton.2 (by decide)

theorem tokenize_lt (h : character.tokenize text false false = .ok ids) :
    ∀ id ∈ ids, id.toNat < character.vocabSize := tokenize_between_lt h

end Tokenize

/-- Spellings in a row are the spelling of the texts in a row. -/
theorem tokenize_join {texts : List String} {rows : List (List TokenId)}
    (h : List.Forall₂ (fun text ids => character.tokenize text false false = .ok ids) texts rows) :
    character.tokenize (String.join texts) false false = .ok rows.flatten := by
  induction h with
  | nil => rfl
  | cons first _ ih =>
    rw [String.join_cons, tokenize_append, first, ih]
    rfl

/-! ## Tokens in a row -/

theorem decodeAll_eq_mapM (ids : List TokenId) :
    decodeAll ids = List.flatten <$> ids.mapM decode := by
  induction ids with
  | nil => rfl
  | cons id ids ih =>
    rw [decodeAll, List.mapM_cons, ih]
    simp only [map_bind, bind_map_left, map_pure, List.flatten_cons]

theorem exists_decodeAll_iff {ids : List TokenId} :
    (∃ cs, decodeAll ids = .ok cs) ↔ ∀ id ∈ ids, HasText id := by
  simp only [← exists_decode_iff, ← exists_mapM_iff, decodeAll_eq_mapM]
  cases ids.mapM decode with
  | error cause => exact ⟨nofun, nofun⟩
  | ok texts => exact ⟨fun _ => ⟨texts, rfl⟩, fun _ => ⟨texts.flatten, rfl⟩⟩

theorem decodeAll_append (ids more : List TokenId) :
    decodeAll (ids ++ more) = do
      let front ← decodeAll ids
      let back ← decodeAll more
      return front ++ back := by
  simp only [decodeAll_eq_mapM, List.mapM_append, map_bind, bind_map_left, map_pure,
    List.flatten_append]

theorem exists_detokenize_iff {ids : List TokenId} :
    (∃ text, character.detokenize ids = .ok text) ↔ ∀ id ∈ ids, HasText id := by
  rw [← exists_decodeAll_iff]
  change (∃ text, (decodeAll ids).map String.ofList = _) ↔ _
  cases decodeAll ids with
  | error cause => exact ⟨nofun, nofun⟩
  | ok cs => exact ⟨fun _ => ⟨cs, rfl⟩, fun _ => ⟨String.ofList cs, rfl⟩⟩

/-- Tokens in a row are decoded to their texts in a row. -/
theorem detokenize_append (ids more : List TokenId) :
    character.detokenize (ids ++ more) = do
      let front ← character.detokenize ids
      let back ← character.detokenize more
      return front ++ back := by
  change (decodeAll (ids ++ more)).map String.ofList
    = ((decodeAll ids).map String.ofList >>= fun front =>
      (decodeAll more).map String.ofList >>= fun back => pure (front ++ back))
  rw [decodeAll_append]
  cases decodeAll ids with
  | error cause => rfl
  | ok front =>
    cases decodeAll more with
    | error cause => rfl
    | ok back => exact congrArg Except.ok String.ofList_append

/-- Where each token is decoded alone, the tokens in a row are decoded to the texts in a row. -/
theorem detokenize_join {ids : List TokenId} {texts : List String}
    (h : List.Forall₂ (fun id text => character.detokenize [id] = .ok text) ids texts) :
    character.detokenize ids = .ok (String.join texts) := by
  induction h with
  | nil => rfl
  | cons first _ ih =>
    rw [← List.singleton_append, detokenize_append, first, ih, String.join_cons]
    rfl

/-- A start token says nothing, and an end token is refused, as the first that has no text. -/
theorem detokenize_of_tokenize_between {text : String} {start stop : Bool} {ids : List TokenId}
    (h : character.tokenize text start stop = .ok ids) :
    character.detokenize ids = if stop then .error (.noText stopId) else .ok text := by
  obtain ⟨spelling, spelled, rfl⟩ := tokenize_eq_ok_iff.1 h
  have opening : character.detokenize (if start then [startId] else []) = .ok "" := by
    cases start <;> rfl
  have middle : character.detokenize spelling = .ok text :=
    detokenize_of_tokenize ((tokenize_eq text).trans spelled)
  -- all that stands in front of the end token is decoded, so the refusal is its own
  rw [detokenize_append, detokenize_append, opening, middle]
  change (character.detokenize _ >>= fun rest => pure ("" ++ text ++ rest)) = _
  cases stop
  · exact congrArg Except.ok (String.append_empty.trans String.empty_append)
  · rfl

/-- **Spelling and decoding in rows.**  With or without a start and an end token, a text is spelled
exactly when each of its characters has a token, within the vocabulary, and it is decoded from its
spelling unless the end token is there, which is refused.  Texts in a row are spelled in a row and
tokens in a row are decoded in a row, refusals included; tokens have a text exactly when each of
them is in the vocabulary and none is the end token. -/
theorem tokenize_detokenize_in_rows :
    (∀ text start stop, (∃ ids, character.tokenize text start stop = .ok ids)
      ↔ ∀ c ∈ text.toList, c.toNat < 128 ∨ c.toNat = 0xE9)
    ∧ (∀ text start stop ids, character.tokenize text start stop = .ok ids →
      (∀ id ∈ ids, id.toNat < character.vocabSize)
      ∧ character.detokenize ids = if stop then .error (.noText stopId) else .ok text)
    ∧ (∀ front back, character.tokenize (front ++ back) false false = do
      let ids ← character.tokenize front false false
      let more ← character.tokenize back false false
      return ids ++ more)
    ∧ (∀ ids more, character.detokenize (ids ++ more) = do
      let front ← character.detokenize ids
      let back ← character.detokenize more
      return front ++ back)
    ∧ (∀ ids more, (∃ text, character.detokenize (ids ++ more) = .ok text)
      ↔ (∃ text, character.detokenize ids = .ok text)
        ∧ ∃ text, character.detokenize more = .ok text)
    ∧ (∀ ids, (∃ text, character.detokenize ids = .ok text)
      ↔ ∀ id ∈ ids, id.toNat < character.vocabSize ∧ id ≠ stopId) := by
  refine ⟨fun text start stop => exists_tokenize_iff, ?_, tokenize_append, detokenize_append, ?_,
    fun ids => exists_detokenize_iff⟩
  · intro text start stop ids spelled
    exact ⟨tokenize_between_lt spelled, detokenize_of_tokenize_between spelled⟩
  · intro ids more
    rw [exists_detokenize_iff, exists_detokenize_iff, exists_detokenize_iff,
      List.forall_mem_append]

/-- A text with an accent between a start and an end token, one with a character that has no token,
and the tokens of several characters behind those of the first and the last ASCII character. -/
theorem tokenize_detokenize_in_rows_accented :
    character.tokenize "thé" true true = .ok [0, 118, 106, 131, 1]
    ∧ character.detokenize [0, 118, 106, 131, 1] = .error (.noText 1)
    ∧ character.detokenize [0, 118, 106, 131] = .ok "thé"
    ∧ (¬ ∃ ids, character.tokenize "thé☃" true false = .ok ids)
    ∧ (∃ text, character.detokenize [2, 129, 130, 132, 133] = .ok text)
    ∧ ¬ ∃ text, character.detokenize [133, 134] = .ok text := by
  obtain ⟨spelled, between, -, -, -, read⟩ := tokenize_detokenize_in_rows
  have accented : character.tokenize "thé" true true = .ok [0, 118, 106, 131, 1] := rfl
  have opened : character.tokenize "thé" true false = .ok [0, 118, 106, 131] := rfl
  refine ⟨accented, (between _ _ _ _ accented).2, (between _ _ _ _ opened).2, ?_, ?_, ?_⟩
  · rw [spelled]
    intro all
    exact absurd (all '☃' (by decide)) (by decide)
  · rw [read]
    simp only [List.forall_mem_cons]
    exact ⟨by decide, by decide, by decide, by decide, by decide, nofun⟩
  · rw [read]
    intro all
    exact absurd (all 134 (by decide)).1 (by decide)

end Tokenizer.Character

end Trellis
