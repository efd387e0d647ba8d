import DocQuery.Number.Wire
import DocQuery.Proofs.Number.Wide

/-!
# Numbers in ten bytes, there and back

* `Extended.ofBytes_bytes`, `Extended.bytes_ofBytes`: a form and its ten bytes tell each other.
* `Number.run_write`: what writing does to a buffer.
* `Number.decode_encode`: decoding undoes encoding, but for the kind of an integer that is a double.
* `Number.encode_decode`: encoding undoes decoding, but for extra bits below one, which decoding
  takes and drops.

Between bytes and numbers stands the form: `Extended.read` is decoding without the bytes.
-/

namespace DocQuery

/-! ## Bytes -/

namespace Wire

@[simp] theorem length_littleEndian (count n : Nat) : (littleEndian count n).length = count := by
  induction count generalizing n with
  | zero => rfl
  | succ count ih => simp only [littleEndian, List.length_cons, ih]

theorem ofLittleEndian_lt (bytes : List UInt8) : ofLittleEndian bytes < 256 ^ bytes.length := by
  induction bytes with
  | nil => decide
  | cons b bytes ih =>
    have := b.toNat_lt
    rw [ofLittleEndian, List.length_cons, Nat.pow_succ]
    omega

/-- Bytes spell the number they were written for. -/
theorem ofLittleEndian_littleEndian {count n : Nat} (h : n < 256 ^ count) :
    ofLittleEndian (littleEndian count n) = n := by
  induction count generalizing n with
  | zero =>
    rw [Nat.pow_zero] at h
    simp only [littleEndian, ofLittleEndian]
    omega
  | succ count ih =>
    have hrest : n / 256 < 256 ^ count := by
      rw [Nat.div_lt_iff_lt_mul (by decide), ← Nat.pow_succ]
      exact h
    rw [littleEndian, ofLittleEndian, ih hrest, UInt8.toNat_ofNat']
    exact Nat.mod_add_div n 256

/-- The number that bytes spell is written as these bytes. -/
theorem littleEndian_ofLittleEndian (bytes : List UInt8) :
    littleEndian bytes.length (ofLittleEndian bytes) = bytes := by
  induction bytes with
  | nil => rfl
  | cons b bytes ih =>
    have hb : b.toNat < 256 := b.toNat_lt
    have hfirst : UInt8.ofNat (b.toNat + 256 * ofLittleEndian bytes) = b := by
      apply UInt8.toNat_inj.mp
      rw [UInt8.toNat_ofNat']
      omega
    have hrest : (b.toNat + 256 * ofLittleEndian bytes) / 256 = ofLittleEndian bytes := by omega
    rw [List.length_cons, ofLittleEndian, littleEndian, hfirst, hrest, ih]

end Wire

/-! ## Forms in bytes -/

namespace Extended

variable {a : Extended}

@[simp] theorem length_bytes (a : Extended) : a.bytes.length = Wire.size := by
  simp [bytes, Wire.size]

theorem extra_ofBytes_lt (bytes : List UInt8) : (ofBytes bytes).extra < 2 ^ 16 := by
  have hlt := Wire.ofLittleEndian_lt ((bytes.drop 8).take 2)
  have hlength : ((bytes.drop 8).take 2).length ≤ 2 := List.length_take_le _ _
  exact hlt.trans_le (Nat.pow_le_pow_right (show 0 < 256 by decide) hlength)

/-- The form is read back from its bytes, whatever follows them. -/
theorem ofBytes_bytes (hextra : a.extra < 2 ^ 16) (rest : List UInt8) :
    ofBytes (a.bytes ++ rest) = a := by
  have htake : (a.bytes ++ rest).take 8 = Wire.littleEndian 8 a.double.word := by
    simp [bytes]
  have hdrop : ((a.bytes ++ rest).drop 8).take 2 = Wire.littleEndian 2 a.extra := by
    simp [bytes]
  rw [ofBytes, htake, hdrop, Wire.ofLittleEndian_littleEndian a.double.word_lt,
    Wire.ofLittleEndian_littleEndian hextra, Binary64.word, UInt64.ofNat_toNat]

/-- Ten bytes are those of the form they hold. -/
theorem bytes_ofBytes {bytes : List UInt8} (h : bytes.length = Wire.size) :
    (ofBytes bytes).bytes = bytes := by
  rw [Wire.size] at h
  have hfront : (bytes.take 8).length = 8 := by rw [List.length_take]; omega
  have hback : ((bytes.drop 8).take 2).length = 2 := by simp; omega
  have hlt := Wire.ofLittleEndian_lt (bytes.take 8)
  rw [hfront] at hlt
  have hword : (ofBytes bytes).double.word = Wire.ofLittleEndian (bytes.take 8) :=
    UInt64.toNat_ofNat_of_lt' hlt
  have hall : (bytes.drop 8).take 2 = bytes.drop 8 := List.take_of_length_le (by simp; omega)
  calc (ofBytes bytes).bytes
      = Wire.littleEndian (bytes.take 8).length (Wire.ofLittleEndian (bytes.take 8)) ++
          Wire.littleEndian ((bytes.drop 8).take 2).length
            (Wire.ofLittleEndian ((bytes.drop 8).take 2)) := by
        rw [Extended.bytes, hword, hfront, hback]
        rfl
    _ = bytes := by
        rw [Wire.littleEndian_ofLittleEndian, Wire.littleEndian_ofLittleEndian, hall,
          List.take_append_drop]

/-! ## Forms as numbers -/

/-- The number that a form is decoded as. -/
def read (a : Extended) : Except WireError Number :=
  if a.extra = 0 then .ok (.double a.double)
  else
    match a.toInt? with
    | some n => .ok (.integer (Int64.ofInt n))
    | none => .error (.extraBits a)

/-- A form is refused if it has extra bits but is not that of an integer, its lowest bits aside. -/
theorem read_eq_error_iff : a.read = .error (.extraBits a) ↔ a.extra ≠ 0 ∧ ¬ a.Readable := by
  by_cases hzero : a.extra = 0
  · simp [read, hzero]
  · by_cases hread : a.Readable
    · simp [read, hzero, hread, toInt?_eq hread]
    · simp [read, hzero, hread, toInt?_eq_none hread]

/-- The number that a form is decoded as has that form again, without the extra bits below one. -/
theorem extended_of_read (hextra : a.extra < 2 ^ 16) {v : Number} (h : a.read = .ok v) :
    v.extended = a.clip := by
  unfold read at h
  split at h
  case isTrue hzero =>
    cases h
    rw [clip, hzero, Nat.zero_div, Nat.zero_mul, Number.extended]
  case isFalse =>
    split at h
    case h_1 n hn =>
      cases h
      obtain ⟨habs, hform⟩ := ofInt_of_toInt? hextra hn
      rw [Number.extended, Int64.toInt_ofInt_of_le (by omega) (by omega), hform]
    case h_2 => cases h

end Extended

namespace Number

variable {v : Number}

theorem read_extended_double (x : Binary64) : (double x).extended.read = .ok (double x) := rfl

/-- A wide integer is read back from its form. -/
theorem read_extended_wide {n : Int64} (h : IsWide n.toInt) :
    (integer n).extended.read = .ok (integer n) := by
  have hextra : (integer n).extended.extra ≠ 0 := fun hzero =>
    Extended.extra_ofInt_eq_zero_iff.mp hzero h
  rw [Extended.read, if_neg hextra, extended, Extended.toInt?_ofInt (natAbs_toInt_le n) h]
  simp only [Int64.ofInt_toInt]

/-- Any other integer is read as the double that it is. -/
theorem read_extended_narrow {n : Int64} (h : ¬ IsWide n.toInt) :
    (integer n).extended.read = .ok (double (.ofInt n.toInt)) := by
  rw [extended, Extended.ofInt_of_not_isWide h]
  rfl

/-- A number's form is read as a number of the same form. -/
theorem exists_read_extended (v : Number) :
    ∃ d, v.extended.read = .ok d ∧ d.extended = v.extended := by
  cases v with
  | integer n =>
    by_cases h : IsWide n.toInt
    · exact ⟨_, read_extended_wide h, rfl⟩
    · exact ⟨_, read_extended_narrow h, (Extended.ofInt_of_not_isWide h).symm⟩
  | double x => exact ⟨_, read_extended_double x, rfl⟩

theorem value_eq_of_extended {u : Number} (h : u.extended = v.extended) : u.value = v.value := by
  rw [← cmp_eq_eq_iff, ← compare_extended, h, compare_extended, cmp_self_eq_eq]

/-! ## Encoding and decoding -/

variable {buffer : List UInt8}

/-- Bytes put at the front, and more of them right behind. -/
theorem put_put {front back : List UInt8} {k m : Nat} (hfront : front.length = k)
    (hback : back.length = m) (buffer : List UInt8) :
    (do Wire.put 0 front; Wire.put k back : Writing Unit).run buffer =
      (.ok (), front ++ back ++ buffer.drop (k + m)) := by
  have hrun : (do Wire.put 0 front; Wire.put k back : Writing Unit).run buffer =
      (.ok (), (front ++ buffer.drop (0 + front.length)).take k ++ back ++
        (front ++ buffer.drop (0 + front.length)).drop (k + back.length)) := rfl
  rw [hrun, hback, Nat.zero_add, hfront, List.take_left' hfront, ← List.drop_drop,
    List.drop_left' hfront, List.drop_drop]

/-- Writing looks at the length first, so that a failure leaves the buffer as it was. -/
theorem run_write (v : Number) (buffer : List UInt8) : v.write.run buffer =
    if buffer.length < Wire.size then (.error ⟨buffer.length⟩, buffer)
    else (.ok (), v.extended.bytes ++ buffer.drop Wire.size) := by
  have hrun : v.write.run buffer = (if buffer.length < Wire.size then throw ⟨buffer.length⟩ else do
      Wire.put 0 (Wire.littleEndian 8 v.extended.double.word)
      Wire.put 8 (Wire.littleEndian 2 v.extended.extra) : Writing Unit).run buffer := rfl
  rw [hrun]
  split
  · rfl
  · exact put_put (Wire.length_littleEndian _ _) (Wire.length_littleEndian _ _) buffer

theorem encode_of_le (v : Number) (h : Wire.size ≤ buffer.length) :
    v.encode buffer = .ok (v.extended.bytes ++ buffer.drop Wire.size) := by
  rw [encode, run_write, if_neg (Nat.not_lt.mpr h)]

theorem encode_of_lt (v : Number) (h : buffer.length < Wire.size) :
    v.encode buffer = .error ⟨buffer.length⟩ := by
  rw [encode, run_write, if_pos h]

theorem decode_of_le (h : Wire.size ≤ buffer.length) :
    decode buffer = (Extended.ofBytes buffer).read :=
  if_neg (Nat.not_lt.mpr h)

theorem decode_of_lt (h : buffer.length < Wire.size) :
    decode buffer = .error (.short ⟨buffer.length⟩) :=
  if_pos h

/-- A number's bytes are decoded as its form is read. -/
theorem decode_bytes (v : Number) (rest : List UInt8) :
    decode (v.extended.bytes ++ rest) = v.extended.read := by
  rw [decode_of_le (by simp), Extended.ofBytes_bytes v.extra_extended_lt]

/-- Decoding undoes encoding. In a buffer of at least ten bytes only the first ten change, and they
are decoded as a number of the same value: the same double, the same integer if it is wide, and any
other integer as a double of exactly its value. With a shorter buffer both fail, and it stays as it
is. -/
theorem decode_encode (v : Number) (buffer : List UInt8) :
    (Wire.size ≤ buffer.length → ∃ bytes d, v.write.run buffer = (.ok (), bytes) ∧
      bytes.length = buffer.length ∧ bytes.drop Wire.size = buffer.drop Wire.size ∧
      decode bytes = .ok d ∧ d.compare v = .eq ∧
      (∀ x, v = double x → d = double x) ∧
      (∀ n, v = integer n → IsWide n.toInt → d = integer n) ∧
      (∀ n, v = integer n → ¬ IsWide n.toInt →
        d = double (.ofInt n.toInt) ∧ d.value = .ofRat n.toInt)) ∧
    (buffer.length < Wire.size → v.write.run buffer = (.error ⟨buffer.length⟩, buffer) ∧
      decode buffer = .error (.short ⟨buffer.length⟩)) := by
  constructor
  · intro hlength
    -- The form that is read is the number's own, so only the kind of number may change.
    obtain ⟨d, hread, hform⟩ := exists_read_extended v
    have hvalue := value_eq_of_extended hform
    refine ⟨v.extended.bytes ++ buffer.drop Wire.size, d, ?_, ?_, ?_, (decode_bytes v _).trans hread,
      ?_, ?_, ?_, ?_⟩
    · rw [run_write, if_neg (Nat.not_lt.mpr hlength)]
    · simp only [List.length_append, Extended.length_bytes, List.length_drop]
      omega
    · exact List.drop_left' v.extended.length_bytes
    · rw [compare_eq_cmp, hvalue, cmp_self_eq_eq]
    · rintro x rfl
      exact (Except.ok.inj ((read_extended_double x).symm.trans hread)).symm
    · rintro n rfl hwide
      exact (Except.ok.inj ((read_extended_wide hwide).symm.trans hread)).symm
    · rintro n rfl hnarrow
      exact ⟨(Except.ok.inj ((read_extended_narrow hnarrow).symm.trans hread)).symm, hvalue⟩
  · intro hlength
    exact ⟨by rw [run_write, if_pos hlength], decode_of_lt hlength⟩

/-- `2 ^ 53 + 1` in a buffer of twelve bytes and in one of nine. -/
theorem decode_encode_beyond_doubles :
    (∃ bytes, (integer 9007199254740993).write.run (.replicate 12 255) = (.ok (), bytes) ∧
      bytes.drop 10 = [255, 255] ∧ decode bytes = .ok (integer 9007199254740993)) ∧
    (integer 9007199254740993).write.run (.replicate 9 255) = (.error ⟨9⟩, .replicate 9 255) := by
  constructor
  · obtain ⟨bytes, d, hwrite, -, hrest, hdecode, -, -, hwide, -⟩ :=
      (decode_encode (integer 9007199254740993) (.replicate 12 255)).1 (by decide)
    have hd : d = integer 9007199254740993 :=
      hwide _ rfl ⟨53, 0, by decide +kernel, by decide +kernel, by decide⟩
    exact ⟨bytes, hwrite, hrest, hd ▸ hdecode⟩
  · exact ((decode_encode (integer 9007199254740993) (.replicate 9 255)).2 (by decide)).1

/-- Encoding undoes decoding, but for extra bits below one. Ten bytes are refused if they have extra
bits that no integer has in such a place; the number that any others are decoded as is encoded as
their form without the extra bits below one; and there are none of these in what encoding writes. -/
theorem encode_decode {bytes : List UInt8} (hlength : bytes.length = Wire.size) :
    (decode bytes = .error (.extraBits (.ofBytes bytes)) ↔
      (Extended.ofBytes bytes).extra ≠ 0 ∧ ¬ (Extended.ofBytes bytes).Readable) ∧
    (∀ (v : Number) (buffer : List UInt8), decode bytes = .ok v → buffer.length = Wire.size →
      v.encode buffer = .ok (Extended.ofBytes bytes).clip.bytes) ∧
    ((∃ (v : Number) (buffer : List UInt8), v.encode buffer = .ok bytes) ↔
      (∃ v, decode bytes = .ok v) ∧
        (Extended.ofBytes bytes).unit ∣ (Extended.ofBytes bytes).extra) := by
  have hdecode := decode_of_le hlength.ge
  have hextra := Extended.extra_ofBytes_lt bytes
  refine ⟨by rw [hdecode, Extended.read_eq_error_iff], ?_, ?_, ?_⟩
  · intro v buffer hv hbuffer
    rw [encode_of_le v hbuffer.ge, Extended.extended_of_read hextra (hdecode.symm.trans hv),
      List.drop_of_length_le hbuffer.le, List.append_nil]
  · rintro ⟨v, buffer, hv⟩
    have hbuffer : Wire.size ≤ buffer.length := by
      by_contra hshort
      rw [encode_of_lt v (Nat.not_le.mp hshort)] at hv
      cases hv
    have hbytes := Except.ok.inj ((encode_of_le v hbuffer).symm.trans hv)
    have hform : Extended.ofBytes bytes = v.extended := by
      rw [← hbytes, Extended.ofBytes_bytes v.extra_extended_lt]
    obtain ⟨d, hread, hd⟩ := exists_read_extended v
    rw [← hform] at hread hd
    -- The number that was written and the one that is read have one form, and the latter's is clipped.
    refine ⟨⟨d, hdecode.trans hread⟩, Extended.clip_eq_self_iff.mp ?_⟩
    rw [← Extended.extended_of_read hextra hread, hd]
  · rintro ⟨⟨v, hv⟩, hunit⟩
    refine ⟨v, bytes, ?_⟩
    rw [encode_of_le v hlength.ge, Extended.extended_of_read hextra (hdecode.symm.trans hv),
      Extended.clip_eq_self_iff.mpr hunit, Extended.bytes_ofBytes hlength,
      List.drop_of_length_le hlength.le, List.append_nil]

/-- The bytes of `2 ^ 53 + 1`. -/
theorem encode_decode_beyond_doubles :
    ∃ v, decode [0, 0, 0, 0, 0, 0, 0x40, 0x43, 0, 0x80] = .ok v ∧
      v.encode (.replicate 10 255) = .ok [0, 0, 0, 0, 0, 0, 0x40, 0x43, 0, 0x80] := by
  have hdecode : decode [0, 0, 0, 0, 0, 0, 0x40, 0x43, 0, 0x80] =
      .ok (integer 9007199254740993) := by
    decide +kernel
  have hclip : (Extended.ofBytes [0, 0, 0, 0, 0, 0, 0x40, 0x43, 0, 0x80]).clip.bytes =
      [0, 0, 0, 0, 0, 0, 0x40, 0x43, 0, 0x80] := by
    decide +kernel
  exact ⟨_, hdecode, hclip ▸ (encode_decode rfl).2.1 _ (.replicate 10 255) hdecode rfl⟩

/-- On `2 ^ 53` the extra bits `0x0040` are worth a 64th: they are taken for an integer's and come
back as none. -/
theorem encode_decode_below_one :
    ∃ bytes : List UInt8, bytes.length = Wire.size ∧ ∃ v, decode bytes = .ok v ∧
      ∃ buffer : List UInt8, buffer.length = Wire.size ∧ v.encode buffer ≠ .ok bytes :=
  ⟨[0, 0, 0, 0, 0, 0, 0x40, 0x43, 0x40, 0], rfl, integer 9007199254740992, by decide +kernel,
    .replicate 10 0, rfl, by decide +kernel⟩

end Number

end DocQuery
