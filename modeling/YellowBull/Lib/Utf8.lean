import YellowBull.Lib.TextFile

/-!
# The round trip of UTF-8

A text without surrogates comes back from its bytes (`decodeReplace_encode`), also behind any other
bytes (`decodeReplace_append_encode`): a character that these leave incomplete is an error of
theirs, because no character begins with a byte that goes on with another.
-/

namespace Py

namespace Utf8

/-! ## Bytes of a character -/

/-- An ASCII byte is a character of its own. -/
theorem first_one {b : ℕ} (h : b < 0x80) : first b = ([some (chr b)], .between) := if_pos h

/-- A byte that begins a sequence of two. -/
theorem first_two {b : ℕ} (h : 0xC2 ≤ b ∧ b ≤ 0xDF) :
    first b = ([], .within (b - 0xC0) 1 0x80 0xBF) := by
  unfold first
  rw [if_neg (by omega), if_pos h]

/-- The first byte of three bounds the second. -/
theorem first_three {b : ℕ} (h : 0xE0 ≤ b ∧ b ≤ 0xEF) :
    first b = ([], .within (b - 0xE0) 2 (if b = 0xE0 then 0xA0 else 0x80)
      (if b = 0xED then 0x9F else 0xBF)) := by
  unfold first
  rw [if_neg (by omega), if_neg (by omega)]
  by_cases hE0 : b = 0xE0
  · simp [hE0]
  by_cases hED : b = 0xED
  · simp [hED]
  rw [if_neg hE0, if_neg hED, if_pos (by omega), if_neg hE0, if_neg hED]

/-- The first byte of four bounds the second. -/
theorem first_four {b : ℕ} (h : 0xF0 ≤ b ∧ b ≤ 0xF4) :
    first b = ([], .within (b - 0xF0) 3 (if b = 0xF0 then 0x90 else 0x80)
      (if b = 0xF4 then 0x8F else 0xBF)) := by
  unfold first
  rw [if_neg (by omega), if_neg (by omega), if_neg (by omega), if_neg (by omega), if_neg (by omega)]
  by_cases hF0 : b = 0xF0
  · simp [hF0]
  by_cases hF4 : b = 0xF4
  · simp [hF4]
  rw [if_neg hF0, if_pos (by omega), if_neg hF0, if_neg hF4]

/-- The bytes are decoded one at a time. -/
theorem run_cons (s : State) (b : UInt8) (bytes : List UInt8) :
    run s (b :: bytes) = (step s b.toNat).1 ++ run (step s b.toNat).2 bytes := by
  cases s <;> rfl

/-- A byte that begins a character and does not end it. -/
theorem run_between {n : ℕ} (hn : n < 256) {s : State} (h : first n = ([], s))
    (bytes : List UInt8) : run .between (UInt8.ofNat n :: bytes) = run s bytes := by
  have hbyte : (UInt8.ofNat n).toNat = n := Nat.mod_eq_of_lt hn
  rw [run_cons, hbyte, step, h, List.nil_append]

/-- A byte in the middle of a character. -/
theorem run_within {bits missing low high n : ℕ} (hn : n < 256) (h : low ≤ n ∧ n ≤ high)
    (hmissing : 2 ≤ missing) (bytes : List UInt8) :
    run (.within bits missing low high) (UInt8.ofNat n :: bytes) =
      run (.within (bits * 64 + (n - 0x80)) (missing - 1) 0x80 0xBF) bytes := by
  have hbyte : (UInt8.ofNat n).toNat = n := Nat.mod_eq_of_lt hn
  rw [run_cons, hbyte, step, if_pos h]
  simp only
  rw [if_neg (by omega), List.nil_append]

/-- The last byte of a character. -/
theorem run_within_one {bits low high n : ℕ} (hn : n < 256) (h : low ≤ n ∧ n ≤ high)
    (bytes : List UInt8) :
    run (.within bits 1 low high) (UInt8.ofNat n :: bytes) =
      some (chr (bits * 64 + (n - 0x80))) :: run .between bytes := by
  have hbyte : (UInt8.ofNat n).toNat = n := Nat.mod_eq_of_lt hn
  rw [run_cons, hbyte, step, if_pos h]
  rfl

/-! ## Characters -/

/-- The bytes of a character that is no surrogate, before others, are read as the character. -/
theorem run_encodeChar {c : CodePoint} (hc : ¬ c.IsSurrogate) (bytes : List UInt8) :
    run .between (String.utf8EncodeChar (Char.ofNat c.val) ++ bytes) =
      some c :: run .between bytes := by
  have hlt : c.val < 0x110000 := c.isLt
  -- A code point that is no surrogate is a character, of the same number.
  have hvalue : (Char.ofNat c.val).val.toNat = c.val := by
    have hvalid : c.val.isValidChar := by
      unfold CodePoint.IsSurrogate at hc
      unfold Nat.isValidChar
      omega
    rw [Char.ofNat, dif_pos hvalid]
    rfl
  have hchr (n : ℕ) (hn : n = c.val) : chr n = c := by
    subst hn
    exact Fin.ext (Nat.mod_eq_of_lt c.isLt)
  unfold CodePoint.IsSurrogate at hc
  unfold String.utf8EncodeChar
  rw [hvalue]
  generalize c.val = v at hlt hc hchr
  simp only
  -- One to four bytes, by the size of the number; each is read back with the bits that it carries.
  split_ifs with h1 h2 h3
  · have hbyte : (UInt8.ofNat v).toNat = v := Nat.mod_eq_of_lt (by omega)
    rw [List.singleton_append, run_cons, hbyte, step, first_one (by omega), hchr v rfl]
    rfl
  · simp only [List.cons_append, List.nil_append]
    rw [run_between (by omega) (first_two (by omega)), run_within_one (by omega) (by omega),
      hchr _ (by omega)]
  · simp only [List.cons_append, List.nil_append]
    rw [run_between (by omega) (first_three (by omega)),
      run_within (by omega) (by split_ifs <;> omega) le_rfl, run_within_one (by omega) (by omega),
      hchr _ (by omega)]
  · simp only [List.cons_append, List.nil_append]
    rw [run_between (by omega) (first_four (by omega)),
      run_within (by omega) (by split_ifs <;> omega) (by omega),
      run_within (by omega) (by omega) (by omega), run_within_one (by omega) (by omega),
      hchr _ (by omega)]

/-- No character begins with a byte that goes on with another. -/
theorem exists_encodeChar_eq_cons (c : Char) :
    ∃ b bytes, String.utf8EncodeChar c = b :: bytes ∧ ¬ (0x80 ≤ b.toNat ∧ b.toNat ≤ 0xBF) := by
  have hvalue : c.val.toNat < 0x110000 := by
    rcases c.valid with h | ⟨-, h⟩
    · exact h.trans (by decide)
    · exact h
  unfold String.utf8EncodeChar
  generalize c.val.toNat = v at hvalue
  have hfirst (n : ℕ) (hn : n < 256) (h : ¬ (0x80 ≤ n ∧ n ≤ 0xBF)) :
      ¬ (0x80 ≤ (UInt8.ofNat n).toNat ∧ (UInt8.ofNat n).toNat ≤ 0xBF) := by
    rwa [show (UInt8.ofNat n).toNat = n from Nat.mod_eq_of_lt hn]
  simp only
  split_ifs
  · exact ⟨_, _, rfl, hfirst _ (by omega) (by omega)⟩
  · exact ⟨_, _, rfl, hfirst _ (by omega) (by omega)⟩
  · exact ⟨_, _, rfl, hfirst _ (by omega) (by omega)⟩
  · exact ⟨_, _, rfl, hfirst _ (by omega) (by omega)⟩

/-! ## Bytes in front -/

/-- Only a byte from 0x80 to 0xBF goes on with a character. -/
def State.Continued : State → Prop
  | .between => True
  | .within _ _ low high => 0x80 ≤ low ∧ high ≤ 0xBF

/-- After a first byte the decoder asks for continuation bytes only. -/
theorem continued_first (b : ℕ) : (first b).2.Continued := by
  unfold first
  split_ifs <;> simp [State.Continued]

/-- So it does after each byte. -/
theorem continued_step (s : State) (b : ℕ) : (step s b).2.Continued := by
  cases s with
  | between => exact continued_first b
  | within bits missing low high =>
    unfold step
    simp only
    split_ifs
    · trivial
    · exact ⟨le_rfl, le_rfl⟩
    · exact continued_first b

/-- Behind other bytes, a byte that begins a character is read as if nothing came before it. -/
theorem run_append {b : UInt8} (hb : ¬ (0x80 ≤ b.toNat ∧ b.toNat ≤ 0xBF)) (bytes : List UInt8)
    {s : State} (hs : s.Continued) (before : List UInt8) :
    run s (before ++ b :: bytes) = run s before ++ run .between (b :: bytes) := by
  induction before generalizing s with
  | nil =>
    cases s with
    | between => rfl
    | within bits missing low high =>
      obtain ⟨hlow, hhigh⟩ := hs
      rw [List.nil_append, run_cons, step, if_neg (by omega), run_cons]
      rfl
  | cons b' before ih =>
    rw [List.cons_append, run_cons, run_cons, ih (continued_step s _), List.append_assoc]

end Utf8

/-! ## Texts -/

/-- A text that can be encoded has no surrogate. -/
theorem CodePoint.not_isSurrogate_of_encode {t : Text} {bytes : List UInt8}
    (h : t.encode = .ok bytes) : ∀ c ∈ t, ¬ c.IsSurrogate := by
  unfold Text.encode at h
  split at h
  · cases h
  · next hnone => simpa using List.findIdx?_eq_none_iff.mp hnone

/-- The bytes of a text are those of its characters. -/
theorem encode_eq_ok_iff {t : Text} {bytes : List UInt8} :
    t.encode = .ok bytes ↔ (∀ c ∈ t, ¬ c.IsSurrogate) ∧
      bytes = t.flatMap fun c => String.utf8EncodeChar (Char.ofNat c.val) := by
  constructor
  · intro h
    refine ⟨CodePoint.not_isSurrogate_of_encode h, ?_⟩
    unfold Text.encode at h
    split at h
    · cases h
    · exact (Except.ok.inj h).symm
  · rintro ⟨hc, rfl⟩
    have hnone : t.findIdx? (CodePoint.IsSurrogate ·) = none :=
      List.findIdx?_eq_none_iff.mpr fun c hmem => by simpa using hc c hmem
    unfold Text.encode
    rw [hnone]

/-- What a decoder makes of the bytes of a text behind any others. -/
theorem run_append_encode {t : Text} {bytes : List UInt8} (h : t.encode = .ok bytes)
    (before : List UInt8) :
    Utf8.run .between (before ++ bytes) = Utf8.run .between before ++ t.map some := by
  obtain ⟨hc, rfl⟩ := encode_eq_ok_iff.mp h
  -- The encoded text is read back character by character.
  have hrun : Utf8.run .between (t.flatMap fun c => String.utf8EncodeChar (Char.ofNat c.val)) =
      t.map some := by
    clear h
    induction t with
    | nil => rfl
    | cons c t ih =>
      rw [List.flatMap_cons, Utf8.run_encodeChar (hc c List.mem_cons_self),
        ih fun c' hmem => hc c' (List.mem_cons_of_mem c hmem), List.map_cons]
  rw [← hrun]
  -- It starts with a byte that is no continuation, so what stands in front is read as if alone.
  cases t with
  | nil => simp [Utf8.run]
  | cons c t =>
    obtain ⟨b, rest, hfirst, hb⟩ := Utf8.exists_encodeChar_eq_cons (Char.ofNat c.val)
    rw [List.flatMap_cons, hfirst, List.cons_append]
    exact Utf8.run_append hb _ (s := .between) trivial before

/-- A text behind any bytes, decoded with replacements. -/
theorem decodeReplace_append_encode {t : Text} {bytes : List UInt8} (h : t.encode = .ok bytes)
    (before : List UInt8) : decodeReplace (before ++ bytes) = decodeReplace before ++ t := by
  unfold decodeReplace
  rw [run_append_encode h, List.map_append, List.map_map]
  simp [Function.comp_def]

/-- An encoded text is decoded to itself. -/
theorem decodeReplace_encode {t : Text} {bytes : List UInt8} (h : t.encode = .ok bytes) :
    decodeReplace bytes = t := decodeReplace_append_encode h []

end Py
