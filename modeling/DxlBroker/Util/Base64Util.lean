import DxlBroker.Lib.Base64
import DxlBroker.Lib.Transducer

/-!
# Base64 decoding

`Base64Util::decode` decodes a text in as many calls as the caller likes.  The bits of a character that
do not fill a byte yet, and their number, are packed into an `int` that the caller passes on; a call
that stops because the destination is full says how many characters it has processed.

The loop of a call is a feeding of the transducer `decodeStep`.  A source is the memory at a pointer,
which may go on behind the text.  A `sourceLength` of at least `INT_MAX` stands for the length of the
C string.
-/

namespace DxlBroker.Base64Util

open Bytes

def byte (c : Char) : UInt8 := c.toNat.toUInt8

/-- The six bits of a character, or `0xFF`.  With a signed `char` the bytes from `0x80` on fail the
first comparison, and here the last one. -/
def decodeChar (code : UInt8) : UInt8 :=
  if code = byte '+' then 62
  else if code = byte '/' then 63
  else if byte '0' ≤ code then
    if code ≤ byte '9' then code + 52 - byte '0'
    else if byte 'A' ≤ code then
      if code ≤ byte 'Z' then code - byte 'A'
      else if byte 'a' ≤ code ∧ code ≤ byte 'z' then code + 26 - byte 'a'
      else 0xFF
    else 0xFF
  else 0xFF

/-- The variables `state` and `partial` of the loop.  The bits in `partial` are the upper ones of the
next byte. -/
structure DecodeState where
  state : Fin 4
  partialByte : UInt8
  clear : partialByte &&& 3 = 0
  deriving DecidableEq

theorem shiftLeft_clear (x : UInt8) : x <<< 2 &&& 3 = 0 ∧ x <<< 4 &&& 3 = 0 ∧ x <<< 6 &&& 3 = 0 := by
  refine ⟨Base64.eq_of_bits fun i => ?_, Base64.eq_of_bits fun i => ?_,
    Base64.eq_of_bits fun i => ?_⟩
  all_goals fin_cases i <;> simp

/-- One round of the loop: the variables, and the byte that is written. -/
def decodeStep (v : DecodeState) (code : UInt8) : DecodeState × Option UInt8 :=
  if code = byte '=' then ({ v with state := 0 }, none)
  else
    let decode := decodeChar code
    if decode ≠ 0xFF then
      match v.state with
      | 0 => (⟨1, decode <<< 2, (shiftLeft_clear decode).1⟩, none)
      | 1 => (⟨2, decode <<< 4, (shiftLeft_clear decode).2.1⟩, some (v.partialByte ||| decode >>> 4))
      | 2 => (⟨3, decode <<< 6, (shiftLeft_clear decode).2.2⟩, some (v.partialByte ||| decode >>> 2))
      | 3 => ({ v with state := 0 }, some (v.partialByte ||| decode))
    else (v, none)

/-- Before the first character, and without a `_state`. -/
def DecodeState.start : DecodeState := ⟨0, 0, rfl⟩

theorem unpack_clear (word : UInt32) : (word &&& 0xFC).toUInt8 &&& 3 = 0 := by
  refine Base64.eq_of_bits fun i => ?_
  fin_cases i <;> simp

/-- The variables from the bits of `*_state`. -/
def DecodeState.unpack (word : UInt32) : DecodeState where
  state := Fin.ofNat 4 (word &&& 3).toNat
  partialByte := (word &&& 0xFC).toUInt8
  clear := unpack_clear word

/-- The bits of `*_state` from the variables. -/
def DecodeState.pack (v : DecodeState) : UInt32 :=
  v.partialByte.toUInt32 ||| UInt32.ofNat v.state.val

/-- `INT_MAX` -/
def intMax : ℕ := 2 ^ 31 - 1

/-- The characters that a call may process.  There are none when the memory ends before them. -/
def sourceText (source : Bytes) (sourceLength : ℕ) : Option Bytes :=
  if intMax ≤ sourceLength then if 0 ∈ source then some (cstr source) else none
  else if sourceLength ≤ source.length then some (source.take sourceLength) else none

/-- The bytes that a call writes, and what it stores through its pointers. -/
@[ext] structure Decoded where
  dest : Bytes
  state : Option UInt32
  sourceCharsProcessed : ℕ
  deriving DecidableEq

/-- `Base64Util::decode`; `state` is missing when the pointer is `NULL`. -/
def decode (source : Bytes) (sourceLength maxDestSize : ℕ) (state : Option UInt32) :
    Option Decoded :=
  (sourceText source sourceLength).map fun text =>
    let fed := Transducer.feed decodeStep text maxDestSize (state.elim .start .unpack)
    { dest := fed.output
      state := state.map fun _ => fed.state.pack
      sourceCharsProcessed := fed.consumed }

/-- How much a caller gives and takes at most. -/
structure DecodeCall where
  sourceLength : ℕ
  maxDestSize : ℕ

/-- The calls for a text one after another, each from where the last one stopped and with the state that
it left. -/
def decodeCalls : List DecodeCall → Bytes → ℕ → Option UInt32 → Option Decoded
  | [], _, _, state => some ⟨[], state, 0⟩
  | call :: calls, source, left, state => do
      let r ← decode source (min call.sourceLength left) call.maxDestSize state
      let rest ← decodeCalls calls (source.drop r.sourceCharsProcessed)
        (left - r.sourceCharsProcessed) r.state
      some ⟨r.dest ++ rest.dest, rest.state, r.sourceCharsProcessed + rest.sourceCharsProcessed⟩

/-- A text at a pointer: it is shorter than `INT_MAX`, or it is the C string there. -/
structure IsText (source text : Bytes) : Prop where
  isPrefix : text <+: source
  fits : text.length < intMax ∨ NulFree text ∧ text ++ [0] <+: source

/-! ### The state between calls -/

theorem or_and_word (x y z : UInt32) : (x ||| y) &&& z = x &&& z ||| y &&& z :=
  UInt32.toBitVec_inj.mp BitVec.and_or_distrib_right

/-- The variables are all there is in the state, and each has bits of its own. -/
theorem unpack_pack (v : DecodeState) : .unpack v.pack = v := by
  obtain ⟨state, partialByte, hclear⟩ := v
  have hlow : ∀ s : Fin 4, UInt32.ofNat s.val &&& 3 = UInt32.ofNat s.val := by decide
  have hhigh : ∀ s : Fin 4, UInt32.ofNat s.val &&& 0xFC = 0 := by decide
  have hnat : ∀ s : Fin 4, Fin.ofNat 4 (UInt32.ofNat s.val).toNat = s := by decide
  have hstate : DecodeState.pack ⟨state, partialByte, hclear⟩ &&& 3 = UInt32.ofNat state.val := by
    have hbits : partialByte.toUInt32 &&& 3 = (partialByte &&& 3).toUInt32 := rfl
    rw [DecodeState.pack, or_and_word, hlow, hbits, hclear]
    exact UInt32.zero_or
  have hpartial : DecodeState.pack ⟨state, partialByte, hclear⟩ &&& 0xFC = partialByte.toUInt32 := by
    have hall : partialByte &&& 0xFC ||| partialByte &&& 3 = partialByte := by
      refine Base64.eq_of_bits fun i => ?_
      fin_cases i <;> simp
    rw [hclear, UInt8.or_zero] at hall
    have hbits : partialByte.toUInt32 &&& 0xFC = (partialByte &&& 0xFC).toUInt32 := rfl
    rw [DecodeState.pack, or_and_word, hhigh, hbits, hall, UInt32.or_zero]
  simp only [DecodeState.unpack, hstate, hpartial, hnat, UInt8.toUInt8_toUInt32]

/-! ### Characters -/

theorem decodeChar_digit {x : UInt8} (h : Base64.IsSextet x) :
    decodeChar (Base64.digit x) = x ∧ Base64.digit x ≠ byte '=' ∧ x ≠ 0xFF := by
  have hall : ∀ i : Fin 64, decodeChar (Base64.digit (UInt8.ofNat i.val)) = UInt8.ofNat i.val ∧
      Base64.digit (UInt8.ofNat i.val) ≠ byte '=' ∧ UInt8.ofNat i.val ≠ 0xFF := by decide +kernel
  have hx := hall ⟨x.toNat, h.lt⟩
  rwa [UInt8.ofNat_toNat] at hx

/-- What is neither of the alphabet nor a pad is ignored. -/
theorem decodeStep_of_not_isChar (v : DecodeState) (c : UInt8) (h : Base64.isChar c = false) :
    decodeStep v c = (v, none) := by
  have hall : ∀ i : Fin 256,
      (UInt8.ofNat i.val ≠ byte '=' ∧ decodeChar (UInt8.ofNat i.val) = 0xFF) ∨
        Base64.isChar (UInt8.ofNat i.val) = true := by decide +kernel
  have hc := hall ⟨c.toNat, c.toNat_lt⟩
  rw [UInt8.ofNat_toNat] at hc
  obtain ⟨hpad, hchar⟩ := hc.resolve_right (by rw [h]; exact Bool.false_ne_true)
  simp only [decodeStep, hpad, if_false, hchar, ne_eq, not_true]

/-! ### Whole texts -/

section

open Transducer

/-- A pad is the end of what was begun. -/
theorem decodeStep_pad (v : DecodeState) :
    decodeStep v Base64.pad = ({ v with state := 0 }, none) := rfl

theorem decodeStep_digit (v : DecodeState) {x : UInt8} (h : Base64.IsSextet x) :
    decodeStep v (Base64.digit x) =
      match v.state with
      | 0 => (⟨1, x <<< 2, (shiftLeft_clear x).1⟩, none)
      | 1 => (⟨2, x <<< 4, (shiftLeft_clear x).2.1⟩, some (v.partialByte ||| x >>> 4))
      | 2 => (⟨3, x <<< 6, (shiftLeft_clear x).2.2⟩, some (v.partialByte ||| x >>> 2))
      | 3 => ({ v with state := 0 }, some (v.partialByte ||| x)) := by
  obtain ⟨hdecode, hpad, hvalid⟩ := decodeChar_digit h
  unfold decodeStep
  rw [if_neg hpad]
  simp only [hdecode, if_pos hvalid]

/-- The first sextet of a group. -/
theorem run_digit_start {v : DecodeState} (h : v.state = 0) {x : UInt8} (hx : Base64.IsSextet x)
    (l : Bytes) :
    run decodeStep (Base64.digit x :: l) v =
      run decodeStep l ⟨1, x <<< 2, (shiftLeft_clear x).1⟩ := by
  rw [run, decodeStep_digit v hx, h]
  simp only [Option.toList_none, List.nil_append]

/-- The encoding is decoded to the bytes, and nothing is left over. -/
theorem run_encode (b : Bytes) (v : DecodeState) (h : v.state = 0) :
    (run decodeStep (Base64.encode b) v).2 = b ∧
      (run decodeStep (Base64.encode b) v).1.state = 0 := by
  induction b using Base64.encode.induct generalizing v with
  | case1 => exact ⟨rfl, h⟩
  | case2 a =>
    have hlast : Base64.IsSextet ((a &&& 3) <<< 4) := by simpa using Base64.isSextet_second a 0
    have ha : (a >>> 2) <<< 2 ||| ((a &&& 3) <<< 4) >>> 4 = a := by
      simpa using Base64.first_byte a 0
    rw [Base64.encode, run_digit_start h (Base64.isSextet_shiftRight a)]
    simp [run, decodeStep_digit _ hlast, decodeStep_pad, ha]
  | case3 a b =>
    have hlast : Base64.IsSextet ((b &&& 15) <<< 2) := by simpa using Base64.isSextet_third b 0
    have hb : ((a &&& 3) <<< 4 ||| b >>> 4) <<< 4 ||| ((b &&& 15) <<< 2) >>> 2 = b := by
      simpa using Base64.second_byte a b 0
    rw [Base64.encode, run_digit_start h (Base64.isSextet_shiftRight a)]
    simp [run, decodeStep_digit _ (Base64.isSextet_second a b), decodeStep_digit _ hlast,
      decodeStep_pad, Base64.first_byte, hb]
  | case4 a b c l ih =>
    rw [Base64.encode, run_digit_start h (Base64.isSextet_shiftRight a)]
    simp only [run, decodeStep_digit _ (Base64.isSextet_second a b),
      decodeStep_digit _ (Base64.isSextet_third b c), decodeStep_digit _ (Base64.isSextet_and c),
      Base64.first_byte, Base64.second_byte, Base64.third_byte, Option.toList_some,
      List.singleton_append]
    obtain ⟨hdest, hstate⟩ := ih ⟨0, _, (shiftLeft_clear _).2.2⟩ rfl
    exact ⟨by rw [hdest], hstate⟩

/-! ### Calls -/

/-- A call may process at least as much of the text as its length says, and nothing behind the text. -/
theorem IsText.sourceText {source text : Bytes} (h : IsText source text) {n : ℕ}
    (hn : n ≤ text.length) :
    ∃ piece, sourceText source n = some piece ∧ piece <+: text ∧ n ≤ piece.length := by
  unfold Base64Util.sourceText
  split_ifs with hlong hnul hsource
  · -- The length is taken for that of the C string, which is the text.
    obtain ⟨hfree, rest, rfl⟩ := h.fits.resolve_left (by omega)
    refine ⟨text, ?_, List.prefix_refl text, hn⟩
    rw [List.append_assoc, List.singleton_append, cstr_append_nul hfree]
  · obtain ⟨-, hterm⟩ := h.fits.resolve_left (by omega)
    exact absurd (hterm.subset (by simp)) hnul
  · obtain ⟨rest, rfl⟩ := h.isPrefix
    refine ⟨text.take n, by rw [List.take_append_of_le_length hn], List.take_prefix n text, ?_⟩
    rw [List.length_take_of_le hn]
  · exact absurd (hn.trans h.isPrefix.length_le) hsource

/-- What is left of a text is one. -/
theorem IsText.drop {source text : Bytes} (h : IsText source text) {n : ℕ} (hn : n ≤ text.length) :
    IsText (source.drop n) (text.drop n) where
  isPrefix := h.isPrefix.drop n
  fits := by
    refine h.fits.imp (fun hlength => ?_) fun hterm => ⟨fun h0 => ?_, ?_⟩
    · rw [List.length_drop]
      omega
    · exact hterm.1 (List.mem_of_mem_drop h0)
    · rw [← List.drop_append_of_le_length hn]
      exact hterm.2.drop n

/-- A call processes a part of the text from its state on: something, if it may, and everything that it is
given, if there is room. -/
theorem IsText.decode {source text : Bytes} (h : IsText source text) {n : ℕ} (hn : n ≤ text.length)
    (room : ℕ) (state : Option UInt32) :
    ∃ r v, decode source n room state = some r ∧ r.sourceCharsProcessed ≤ text.length ∧
      run decodeStep (text.take r.sourceCharsProcessed) (state.elim .start .unpack) = (v, r.dest) ∧
      (r.state = state.map fun _ => v.pack) ∧
      (0 < n → 0 < room → 0 < r.sourceCharsProcessed) ∧
      (n = text.length → r.dest =
        (run decodeStep text (state.elim .start .unpack)).2.take room ∧
        (text.length ≤ room → r.sourceCharsProcessed = text.length)) := by
  obtain ⟨piece, hpiece, hprefix, hlong⟩ := h.sourceText hn
  obtain ⟨hle, hrun⟩ := @run_feed _ _ _ decodeStep piece room (state.elim .start .unpack)
  have hlength := hprefix.length_le
  have htake : ∀ k ≤ piece.length, text.take k = piece.take k := by
    obtain ⟨rest, rfl⟩ := hprefix
    exact fun k hk => List.take_append_of_le_length hk
  refine ⟨_, _, by rw [Base64Util.decode, hpiece, Option.map_some], hle.trans hlength, ?_, rfl,
    fun hpos hroom => ?_, ?_⟩
  · rw [htake _ hle]
    exact hrun
  · exact consumed_feed_pos _ (List.ne_nil_of_length_pos (hpos.trans_le hlong)) hroom
  · rintro rfl
    obtain rfl := hprefix.eq_of_length_le hlong
    exact ⟨output_feed _ _ _, consumed_feed_of_le _⟩

/-- The calls for a text process a part of it as one run would, and with each call that may process
something at least one character more. -/
theorem IsText.decodeCalls (calls : List DecodeCall) {source text : Bytes} (h : IsText source text)
    (v₀ : DecodeState) :
    ∃ r v, decodeCalls calls source text.length (some v₀.pack) = some r ∧
      r.sourceCharsProcessed ≤ text.length ∧
      run decodeStep (text.take r.sourceCharsProcessed) v₀ = (v, r.dest) ∧
      r.state = some v.pack ∧
      ((∀ call ∈ calls, 0 < call.sourceLength ∧ 0 < call.maxDestSize) →
        min text.length calls.length ≤ r.sourceCharsProcessed) := by
  induction calls generalizing source text v₀ with
  | nil => exact ⟨_, v₀, rfl, Nat.zero_le _, rfl, rfl, fun _ => Nat.min_le_right _ _⟩
  | cons call calls ih =>
    obtain ⟨r₁, v₁, hone, hle₁, hrun₁, hstate₁, hsome, -⟩ :=
      h.decode (Nat.min_le_right call.sourceLength text.length) call.maxDestSize (some v₀.pack)
    obtain ⟨r₂, v₂, hcalls, hle₂, hrun₂, hstate₂, hmore⟩ := ih (h.drop hle₁) v₁
    rw [Option.elim_some, unpack_pack] at hrun₁
    rw [List.length_drop] at hcalls hle₂ hmore
    rw [Option.map_some] at hstate₁
    refine ⟨⟨r₁.dest ++ r₂.dest, r₂.state, r₁.sourceCharsProcessed + r₂.sourceCharsProcessed⟩, v₂,
      ?_, by simp only; omega, ?_, hstate₂, fun hpos => ?_⟩
    · rw [Base64Util.decodeCalls, hone, Option.bind_eq_bind, Option.bind_some, hstate₁, hcalls]
      rfl
    · -- The run goes on from the state that was packed and unpacked.
      rw [List.take_add, run_append, hrun₁, hrun₂]
    · obtain ⟨hlength, hroom⟩ := hpos call List.mem_cons_self
      have hrest := hmore fun c hc => hpos c (List.mem_cons_of_mem call hc)
      have hfirst : 0 < text.length → 0 < r₁.sourceCharsProcessed := fun htext =>
        hsome (by omega) hroom
      simp only [List.length_cons]
      omega

end

/-- **Base64 decoding.**  For a text that is shorter than `INT_MAX` or the C string at the source, one
call decodes an encoding with other characters in between to its bytes, if there is room for them.  However
the text is cut and the destination limited, the calls write a part of what one call with enough room
writes, and once they have processed the text all of it; calls that may process something end after at
most as many as the text has characters. -/
theorem base64_resumable {source text : Bytes} (h : IsText source text) :
    (∀ b, text.filter Base64.isChar = Base64.encode b → ∀ maxDestSize, b.length ≤ maxDestSize →
      ∀ state, state = none ∨ state = some 0 →
        ∃ r, decode source text.length maxDestSize state = some r ∧ r.dest = b) ∧
    ∃ total, decode source text.length text.length (some 0) = some total ∧
      total.sourceCharsProcessed = text.length ∧
      ∀ calls, ∃ r, decodeCalls calls source text.length (some 0) = some r ∧
        r.dest <+: total.dest ∧ (r.sourceCharsProcessed = text.length → r = total) ∧
        ((∀ call ∈ calls, 0 < call.sourceLength ∧ 0 < call.maxDestSize) →
          text.length ≤ calls.length → r.sourceCharsProcessed = text.length) := by
  have hstart : ∀ state : Option UInt32, state = none ∨ state = some 0 →
      state.elim DecodeState.start .unpack = .start := by
    rintro _ (rfl | rfl)
    · rfl
    · exact unpack_pack .start
  constructor
  · intro b hb maxDestSize hroom state hstate
    obtain ⟨r, -, hr, -, -, -, -, hall⟩ := h.decode le_rfl maxDestSize state
    refine ⟨r, hr, ?_⟩
    rw [(hall rfl).1, hstart state hstate, ← Transducer.run_filter decodeStep_of_not_isChar, hb,
      (run_encode b _ rfl).1, List.take_of_length_le hroom]
  · obtain ⟨total, v, htotal, -, hrun, hstate, -, hall⟩ := h.decode le_rfl text.length (some 0)
    have hend := (hall rfl).2 le_rfl
    rw [hstart _ (.inr rfl), hend, List.take_length] at hrun
    refine ⟨total, htotal, hend, fun calls => ?_⟩
    obtain ⟨r, v', hr, hle, hrun', hstate', hpos⟩ := h.decodeCalls calls .start
    refine ⟨r, hr, ?_, fun hdone => ?_, fun hcalls hmany => ?_⟩
    · have hsplit := List.take_append_drop r.sourceCharsProcessed text
      rw [← hsplit, Transducer.run_append, hrun'] at hrun
      exact ⟨_, congrArg Prod.snd hrun⟩
    · rw [hdone, List.take_length, hrun] at hrun'
      obtain ⟨rfl, hdest⟩ := Prod.mk.inj hrun'
      exact Decoded.ext hdest.symm (hstate'.trans hstate.symm) (hdone.trans hend.symm)
    · have := hpos hcalls
      omega

/-- Two lines of an encoding. -/
def twoLines : Bytes := lit "Zm9v\r\nYmFy\r\n"

theorem base64_resumable_twoLines :
    IsText twoLines twoLines ∧
      ∃ r, decode twoLines twoLines.length 6 none = some r ∧ r.dest = lit "foobar" := by
  have htext : IsText twoLines twoLines := ⟨List.prefix_refl _, .inl (by decide)⟩
  exact ⟨htext, (base64_resumable htext).1 (lit "foobar") (by decide) 6 (by decide) none (.inl rfl)⟩

/-! ### Long texts -/

/-- From `INT_MAX` on the length is only that of the C string. -/
theorem decode_of_long {source : Bytes} {m n : ℕ} (hm : intMax ≤ m) (hn : intMax ≤ n) (room : ℕ)
    (state : Option UInt32) : decode source m room state = decode source n room state := by
  rw [decode, decode, sourceText, sourceText, if_pos hm, if_pos hn]

theorem filter_replicate {c : UInt8} (hc : Base64.isChar c = false) (n : ℕ) (l : Bytes) :
    (List.replicate n c ++ l).filter Base64.isChar = l.filter Base64.isChar := by
  rw [List.filter_append, List.filter_replicate, hc]
  rfl

/-- Without the bounds neither holds: of an encoding after `INT_MAX` NULs nothing is decoded, and what
follows `INT_MAX` blanks is decoded twice when the text is cut there.  A pad is not ignored where there
should be none. -/
theorem not_base64_resumable :
    (¬ ∀ b text, text.filter Base64.isChar = Base64.encode b →
      ∀ r, decode text text.length b.length none = some r → r.dest = b) ∧
    (¬ ∀ b text, text.filter Base64.alphabet.contains = Base64.encode b →
      ∀ r, decode text text.length b.length none = some r → r.dest = b) ∧
    ¬ ∀ source text cut, text <+: source → cut ≤ text.length → ∀ r r₁ r₂,
      decode source text.length text.length (some 0) = some r →
      decode source cut text.length (some 0) = some r₁ →
      decode (source.drop cut) (text.length - cut) text.length r₁.state = some r₂ →
        r₁.dest ++ r₂.dest = r.dest := by
  refine ⟨?_, ?_, ?_⟩
  · intro h
    have hfilter : (0 :: (List.replicate intMax 0 ++ Base64.encode [65])).filter Base64.isChar =
        Base64.encode [65] := by
      rw [List.filter_cons_of_neg (by decide), filter_replicate (by decide)]
      decide
    have hlong : intMax ≤ (0 :: (List.replicate intMax 0 ++ Base64.encode [65])).length := by
      rw [List.length_cons, List.length_append, List.length_replicate]
      omega
    have hdecode : ∀ l : Bytes, intMax ≤ (0 :: l).length →
        decode (0 :: l) (0 :: l).length [65].length none = some ⟨[], none, 0⟩ := by
      intro l hl
      rw [decode, sourceText, if_pos hl]
      rfl
    have hnil := h [65] _ hfilter _ (hdecode _ hlong)
    cases hnil
  · intro h
    have hdecode : decode (lit "Zm=9v") 5 3 none = some ⟨[102, 246], none, 5⟩ := by decide
    exact absurd (h (lit "foo") (lit "Zm=9v") (by decide) _ hdecode) (by decide)
  · intro h
    have hfilter : (List.replicate intMax 32 ++ Base64.encode [65, 66]).filter Base64.isChar =
        Base64.encode [65, 66] := by
      rw [filter_replicate (by decide)]
      decide
    have hdrop : (List.replicate intMax 32 ++ Base64.encode [65, 66]).drop intMax =
        Base64.encode [65, 66] := by
      rw [List.drop_left' List.length_replicate]
    have hlength : (List.replicate intMax 32 ++ Base64.encode [65, 66]).length = intMax + 4 := by
      rw [List.length_append, List.length_replicate]
      rfl
    have hfree : NulFree (List.replicate intMax 32 ++ Base64.encode [65, 66]) := by
      rw [NulFree, List.mem_append, List.mem_replicate]
      decide
    generalize List.replicate intMax 32 ++ Base64.encode [65, 66] = text at hfilter hdrop hlength hfree
    have htext : IsText (text ++ [0]) text :=
      ⟨List.prefix_append _ _, .inr ⟨hfree, List.prefix_refl _⟩⟩
    have hcut : intMax ≤ text.length := by omega
    obtain ⟨r, v, hr, -, hrun, hstate, -, hall⟩ := htext.decode le_rfl text.length (some 0)
    obtain ⟨r₂, v₂, hr₂, -, -, -, -, hall₂⟩ :=
      (htext.drop hcut).decode le_rfl text.length r.state
    rw [List.length_drop] at hr₂
    have hone := hr
    rw [decode_of_long hcut le_rfl] at hone
    have htwice := h (text ++ [0]) text intMax (List.prefix_append _ _) hcut r r r₂ hr hone hr₂
    have hstart : DecodeState.unpack 0 = .start := unpack_pack .start
    obtain ⟨hdest, hdone⟩ := hall rfl
    rw [hdone le_rfl, List.take_length, Option.elim_some, hstart,
      ← Transducer.run_filter decodeStep_of_not_isChar, hfilter] at hrun
    obtain ⟨hab, hzero⟩ := run_encode [65, 66] .start rfl
    rw [hrun] at hab hzero
    have hagain := (hall₂ rfl).1
    rw [hdrop, hstate, Option.map_some, Option.elim_some, unpack_pack, (run_encode _ v hzero).1,
      List.take_of_length_le (by simp only [List.length_cons, List.length_nil]; omega)] at hagain
    simp only at hab
    rw [hab, hagain] at htwice
    cases htwice

end DxlBroker.Base64Util
