import Mathlib.Data.Nat.Bitwise
import Mathlib.Tactic.Ring
import BuildScript.Proofs.Bytecode.Readers
import BuildScript.Proofs.Scripts.Records

/-!
# Reading payloads back

`d.Decodes bytes x` is what an encoding owes its decoder, in one judgement: whatever stands behind
the bytes, and however they are buffered, `d` takes exactly them and gives `x`; and where the source
ends before they do, `d` says so and gives nothing. Both halves are closed under sequencing, for the
same reason: a beginning of two encodings ends in the first one or behind it. So the encodings of
numbers, texts, lists, and lists of lists are put together from that of bytes, and only the varint
needs an argument of its own.
-/

namespace BuildScript

variable {α β : Type}

/-! ## The judgement -/

namespace Decoder

open ByteSource

variable {d : Decoder α} {k : α → Decoder β} {s : ByteSource} {content a b : List UInt8} {x : α}
  {y : β}

/-- The decoder takes these bytes off whatever follows them and gives the value; of less than these
bytes it finds that the end is missing. -/
structure Decodes (d : Decoder α) (bytes : List UInt8) (x : α) : Prop where
  takes : ∀ {s : ByteSource} {content more : List UInt8}, s.Over content →
    s.remaining = bytes ++ more → ∃ s', d s = .ok x s' ∧ s'.Over content ∧ s'.remaining = more
  starves : ∀ {s : ByteSource} {content : List UInt8}, s.Over content → s.remaining <+: bytes →
    s.remaining ≠ bytes → ∃ s', d s = .error .unexpectedEof s'

theorem bind_of_ok {s' : ByteSource} (h : d s = .ok x s') : (d >>= k) s = k x s' := by
  change EStateM.bind d k s = k x s'
  rw [EStateM.bind, h]

theorem bind_of_error {s' : ByteSource} {e : PayloadError} (h : d s = .error e s') :
    (d >>= k) s = .error e s' := by
  change EStateM.bind d k s = .error e s'
  rw [EStateM.bind, h]

theorem decodes_pure (x : α) : Decodes (pure x) [] x where
  takes hover hremaining := ⟨_, rfl, hover, hremaining⟩
  starves _ hfront hstrict := absurd (List.prefix_nil.mp hfront) hstrict

theorem Decodes.bind (hd : d.Decodes a x) (hk : (k x).Decodes b y) :
    (d >>= k).Decodes (a ++ b) y where
  takes hover hremaining := by
    rw [List.append_assoc] at hremaining
    obtain ⟨s₁, hrun, hover₁, hrest⟩ := hd.takes hover hremaining
    rw [bind_of_ok hrun]
    exact hk.takes hover₁ hrest
  starves {s content} hover hfront hstrict := by
    -- What is left ends in the first encoding, or it has all of it and ends in the second.
    by_cases hwhole : a <+: s.remaining
    · obtain ⟨c, hc⟩ := hwhole
      rw [← hc, List.prefix_append_right_inj] at hfront
      have hne : c ≠ b := by
        rintro rfl
        exact hstrict hc.symm
      obtain ⟨s₁, hrun, hover₁, rfl⟩ := hd.takes hover hc.symm
      rw [bind_of_ok hrun]
      exact hk.starves hover₁ hfront hne
    · have hfirst : s.remaining <+: a :=
        (List.prefix_or_prefix_of_prefix hfront (List.prefix_append a b)).resolve_right hwhole
      have hne : s.remaining ≠ a := by
        rintro rfl
        exact hwhole List.prefix_rfl
      obtain ⟨s₁, hrun⟩ := hd.starves hover hfirst hne
      exact ⟨s₁, bind_of_error hrun⟩

/-- A result that only depends on what was decoded takes no more bytes. -/
theorem Decodes.map (hd : d.Decodes a x) (f : α → β) : Decodes (do return f (← d)) a (f x) := by
  have h := hd.bind (k := fun x ↦ pure (f x)) (decodes_pure (f x))
  rwa [List.append_nil] at h

/-! ## Bytes and numbers of fixed width -/

/-- Bytes that are not there cannot be fetched either. -/
theorem bytes_of_lt (h : s.Over content) {n : Nat} (hn : s.remaining.length < n) :
    ∃ s', bytes n s = .error .unexpectedEof s' := by
  have hshort {s' : ByteSource} (h' : s'.Over content) (hlt : s'.remaining.length < n) :
      LittleEndian.split? n s'.buffered = none := by
    rw [h'.remaining_eq, List.length_append] at hlt
    exact LittleEndian.split?_eq_none_iff.mpr (by omega)
  obtain ⟨s', hfetch, h', hremaining, -⟩ := h.fetch (n - s.buffered.length)
  rw [bytes, hshort h hn]
  dsimp only
  rw [hfetch]
  dsimp only
  rw [hshort h' (hremaining ▸ hn)]
  exact ⟨_, rfl⟩

theorem decodes_bytes (front : List UInt8) : (bytes front.length).Decodes front front where
  takes {s content more} hover hremaining := by
    obtain ⟨s', hrun, hover', hrest⟩ := bytes_eq hover (n := front.length)
      (by rw [hremaining, List.length_append]; exact Nat.le_add_right _ _)
    rw [hremaining, List.take_left] at hrun
    rw [hremaining, List.drop_left] at hrest
    exact ⟨s', hrun, hover', hrest⟩
  starves hover hfront hstrict :=
    bytes_of_lt hover (Nat.lt_of_le_of_ne hfront.length_le fun hlength ↦
      hstrict (hfront.eq_of_length hlength))

/-- A number of `n` bytes. -/
theorem decodes_number {n m : Nat} (hm : m < 256 ^ n) (f : Nat → α) :
    Decodes (do return f (LittleEndian.decode (← bytes n))) (LittleEndian.encode n m) (f m) := by
  have h := (decodes_bytes (LittleEndian.encode n m)).map (f ∘ LittleEndian.decode)
  rwa [LittleEndian.length_encode, Function.comp, LittleEndian.decode_encode, Nat.pow_eq,
    Nat.mod_eq_of_lt hm] at h

theorem decodes_byte (b : UInt8) : byte.Decodes [b] b := by
  have h := decodes_number (n := 1) b.toNat_lt (·.toUInt8)
  rwa [Nat.toUInt8_eq, UInt8.ofNat_toNat, LittleEndian.encode, LittleEndian.encode,
    Nat.toUInt8_eq, UInt8.ofNat_toNat] at h

theorem decodes_boolean (b : Bool) : boolean.Decodes (Payload.boolean b) b := by
  refine (decodes_byte (if b then 1 else 0)).bind ?_
  cases b with
  | false => exact decodes_pure false
  | true => exact decodes_pure true

theorem decodes_int (n : Int32) : int.Decodes (Payload.int n) n := by
  have h := decodes_number (n := 4) n.toUInt32.toNat_lt (·.toUInt32.toInt32)
  rwa [Nat.toUInt32_eq, UInt32.ofNat_toNat, Int32.toInt32_toUInt32] at h

theorem decodes_long (n : Int64) : long.Decodes (Payload.long n) n := by
  have h := decodes_number (n := 8) n.toUInt64.toNat_lt (·.toUInt64.toInt64)
  rwa [Nat.toUInt64_eq, UInt64.ofNat_toNat, Int64.toInt64_toUInt64] at h

/-! ## Varints -/

theorem toNat_toUInt8 {n : Nat} (h : n < 256) : n.toUInt8.toNat = n := by
  rw [Nat.toUInt8_eq, UInt8.toNat_ofNat_of_lt' h]

/-- The low seven bits of a byte are its part of the number, and the high bit tells whether others
follow. -/
theorem toNat_and_low (b : UInt8) : (b &&& 0x7F).toNat = b.toNat % 128 := by
  rw [UInt8.toNat_and]
  exact Nat.and_two_pow_sub_one_eq_mod b.toNat 7

theorem and_high_eq_zero_iff (b : UInt8) : b &&& 0x80 = 0 ↔ b.toNat < 128 := by
  have hbit : (b &&& 0x80).toNat = (b.toNat.testBit 7).toNat * 128 := by
    rw [UInt8.toNat_and]
    exact Nat.and_two_pow b.toNat 7
  have hb : b.toNat < 256 := b.toNat_lt
  rw [← UInt8.toNat_inj, hbit, Nat.testBit_eq_decide_div_mod_eq]
  by_cases hlt : b.toNat < 128
  · simp [Nat.div_eq_of_lt hlt, hlt]
  · have hone : b.toNat / 128 = 1 := by omega
    simp [hone, hlt]

/-- Adding the bits of one more byte to those read so far, where they have room. -/
theorem toNat_or_shift {value shift : UInt32} {bits : UInt8} (hvalue : value.toNat < 2 ^ shift.toNat)
    (hshift : shift.toNat < 32) (hroom : bits.toNat * 2 ^ shift.toNat < 2 ^ 32) :
    (value ||| (bits.toUInt32 <<< shift)).toNat = value.toNat + bits.toNat * 2 ^ shift.toNat := by
  have hbits : (bits.toUInt32 <<< shift).toNat = 2 ^ shift.toNat * bits.toNat := by
    rw [UInt32.toNat_shiftLeft, UInt8.toNat_toUInt32, Nat.mod_eq_of_lt hshift, Nat.shiftLeft_eq,
      Nat.mod_eq_of_lt hroom, Nat.mul_comm]
  rw [UInt32.toNat_or, hbits, Nat.or_comm, ← Nat.two_pow_add_eq_or_of_lt hvalue, Nat.mul_comm,
    Nat.add_comm]

/-- One byte of a varint. -/
theorem varintFrom_succ (n : Nat) (shift value : UInt32) : varintFrom (n + 1) shift value = (do
    let b ← byte
    if b.toNat < 128 then return value ||| ((b &&& 0x7F).toUInt32 <<< shift)
    else varintFrom n (shift + 7) (value ||| ((b &&& 0x7F).toUInt32 <<< shift))) := by
  rw [varintFrom]
  refine congrArg (byte >>= ·) (funext fun b ↦ ?_)
  by_cases hb : b.toNat < 128
  · rw [if_pos hb, if_pos (by simpa using (and_high_eq_zero_iff b).mpr hb)]
  · rw [if_neg hb, if_neg (by simpa using mt (and_high_eq_zero_iff b).mp hb)]

/-- The last byte of a varint adds its bits to those read so far. -/
theorem decodes_varintFrom_last (n : Nat) {shift value x : UInt32} {m : Nat} (hm : m < 128)
    (hshift : shift.toNat < 32) (hvalue : value.toNat < 2 ^ shift.toNat)
    (hx : x.toNat = value.toNat + m * 2 ^ shift.toNat) :
    (varintFrom (n + 1) shift value).Decodes (Payload.varint m) x := by
  have hbyte : m.toUInt8.toNat = m := toNat_toUInt8 (by omega)
  have hlow : (m.toUInt8 &&& 0x7F).toNat = m := by
    rw [toNat_and_low, hbyte, Nat.mod_eq_of_lt hm]
  have hroom : (m.toUInt8 &&& 0x7F).toNat * 2 ^ shift.toNat < 2 ^ 32 := by
    have := x.toNat_lt
    rw [hlow]
    omega
  have hresult : value ||| ((m.toUInt8 &&& 0x7F).toUInt32 <<< shift) = x := by
    rw [← UInt32.toNat_inj, toNat_or_shift hvalue hshift hroom, hlow, hx]
  rw [Payload.varint, if_pos hm, varintFrom_succ]
  refine (decodes_byte m.toUInt8).bind ?_
  rw [hbyte, if_pos hm, hresult]
  exact decodes_pure x

/-- Behind the bits read so far, the bytes of a number add its multiple. The shift tells how many
bytes may still come, and after four of them so little room is left that one more is enough. -/
theorem decodes_varintFrom (n : Nat) {shift value x : UInt32} {m : Nat}
    (hshift : shift.toNat + 7 * n = 28) (hvalue : value.toNat < 2 ^ shift.toNat)
    (hx : x.toNat = value.toNat + m * 2 ^ shift.toNat) :
    (varintFrom (n + 1) shift value).Decodes (Payload.varint m) x := by
  have hroom : m * 2 ^ shift.toNat < 2 ^ 32 := by
    have := x.toNat_lt
    omega
  induction n generalizing shift value m with
  | zero =>
    have hm : m < 128 := by
      rw [show shift.toNat = 28 by omega] at hroom
      omega
    exact decodes_varintFrom_last 0 hm (by omega) hvalue hx
  | succ n ih =>
    by_cases hm : m < 128
    · exact decodes_varintFrom_last (n + 1) hm (by omega) hvalue hx
    · have hbyte : (m % 128 + 128).toUInt8.toNat = m % 128 + 128 := toNat_toUInt8 (by omega)
      have hlow : ((m % 128 + 128).toUInt8 &&& 0x7F).toNat = m % 128 := by
        rw [toNat_and_low, hbyte]
        omega
      have hsplit : m * 2 ^ shift.toNat =
          m % 128 * 2 ^ shift.toNat + m / 128 * 2 ^ (shift.toNat + 7) := by
        calc m * 2 ^ shift.toNat = (m % 128 + 128 * (m / 128)) * 2 ^ shift.toNat := by
              rw [Nat.mod_add_div]
          _ = _ := by rw [Nat.pow_add]; ring
      have hshift' : (shift + 7).toNat = shift.toNat + 7 := by
        rw [UInt32.toNat_add]
        exact Nat.mod_eq_of_lt (by change shift.toNat + 7 < 2 ^ 32; omega)
      have hroom : ((m % 128 + 128).toUInt8 &&& 0x7F).toNat * 2 ^ shift.toNat < 2 ^ 32 := by
        rw [hlow]
        omega
      have hvalue' := toNat_or_shift hvalue (by omega) hroom
      rw [hlow] at hvalue'
      have hlt : m % 128 * 2 ^ shift.toNat ≤ 127 * 2 ^ shift.toNat :=
        Nat.mul_le_mul_right _ (by omega)
      rw [Payload.varint, if_neg hm, varintFrom_succ]
      refine (decodes_byte (m % 128 + 128).toUInt8).bind ?_
      rw [hbyte, if_neg (by omega)]
      refine ih (by omega) ?_ ?_ ?_
      · rw [hvalue', hshift', Nat.pow_add]
        omega
      · rw [hvalue', hshift', hx]
        omega
      · rw [hshift']
        omega

/-- A number of 32 bits is read from its varint. -/
theorem decodes_varint {x : UInt32} {m : Nat} (hx : x.toNat = m) :
    varint.Decodes (Payload.varint m) x :=
  decodes_varintFrom 4 rfl (by decide) (by rw [hx]; simp)

/-! ## Texts and byte strings -/

theorem decodes_binary {bytes : List UInt8} (h : bytes.length < Payload.lengthLimit) :
    binary.Decodes (Payload.varint bytes.length ++ bytes) bytes := by
  have hlength : bytes.length.toUInt32.toNat = bytes.length := by
    rw [Nat.toUInt32_eq, UInt32.toNat_ofNat_of_lt' h]
  refine (decodes_varint hlength).bind ?_
  rw [hlength]
  exact decodes_bytes bytes

theorem decodes_text {s : String} (h : (Wire.ofText s).length < Payload.lengthLimit) :
    text.Decodes (Payload.varint (Wire.ofText s).length ++ Wire.ofText s) s := by
  have htext : text.Decodes ((Payload.varint (Wire.ofText s).length ++ Wire.ofText s) ++ []) s := by
    refine (decodes_binary h).bind ?_
    rw [Wire.toText?_ofText]
    exact decodes_pure s
  rwa [List.append_nil] at htext

theorem decodes_optionalText_none : optionalText.Decodes (Payload.boolean false) none :=
  (decodes_boolean false).bind (decodes_pure none)

theorem decodes_optionalText_some {s : String} {encoded : List UInt8}
    (h : text.Decodes encoded s) :
    optionalText.Decodes (Payload.boolean true ++ encoded) (some s) :=
  (decodes_boolean true).bind (h.map some)

end Decoder

namespace Payload

variable {bytes : List UInt8} {s : String}

/-- Only what is too long has no encoding. -/
theorem binary_eq_ok_iff {encoded : List UInt8} :
    binary bytes = .ok encoded ↔
      bytes.length < lengthLimit ∧ encoded = varint bytes.length ++ bytes := by
  rw [binary]
  split
  next h => simp [h, eq_comm]
  next h => simp [h]

end Payload

/-! ## Sequences of values -/

/-- The types of values that payloads are made of. -/
inductive PayloadType where
  | byte | boolean | int | smallInt | long | text | optionalText | binary
deriving DecidableEq, Repr

/-- A value of one of these types. -/
inductive PayloadValue where
  | byte (b : UInt8)
  | boolean (b : Bool)
  | int (n : Int32)
  | smallInt (n : UInt32)
  | long (n : Int64)
  | text (s : String)
  | optionalText (s : Option String)
  | binary (bytes : List UInt8)
deriving DecidableEq, Repr

namespace PayloadValue

def type : PayloadValue → PayloadType
  | byte _ => .byte
  | boolean _ => .boolean
  | int _ => .int
  | smallInt _ => .smallInt
  | long _ => .long
  | text _ => .text
  | optionalText _ => .optionalText
  | binary _ => .binary

def encode : PayloadValue → Except PayloadError (List UInt8)
  | byte b => .ok [b]
  | boolean b => .ok (Payload.boolean b)
  | int n => .ok (Payload.int n)
  | smallInt n => .ok (Payload.varint n.toNat)
  | long n => .ok (Payload.long n)
  | text s => Payload.text s
  | optionalText s => Payload.optionalText s
  | binary bytes => Payload.binary bytes

/-- The encodings of values, one behind the other. -/
def encodeAll : List PayloadValue → Except PayloadError (List UInt8)
  | [] => .ok []
  | v :: vs => do return (← v.encode) ++ (← encodeAll vs)

/-- The length of the value, if it has one, is a number of 32 bits. -/
def Fits : PayloadValue → Prop
  | text s | optionalText (some s) => s.utf8ByteSize < 2 ^ 32
  | binary bytes => bytes.length < 2 ^ 32
  | _ => True

end PayloadValue

namespace Decoder

/-- A value of the type. -/
def value : PayloadType → Decoder PayloadValue
  | .byte => return .byte (← byte)
  | .boolean => return .boolean (← boolean)
  | .int => return .int (← int)
  | .smallInt => return .smallInt (← varint)
  | .long => return .long (← long)
  | .text => return .text (← text)
  | .optionalText => return .optionalText (← optionalText)
  | .binary => return .binary (← binary)

/-- Values of the types, one behind the other. -/
def values : List PayloadType → Decoder (List PayloadValue)
  | [] => return []
  | t :: ts => do return (← value t) :: (← values ts)

end Decoder

namespace PayloadValue

theorem exists_text {s : String} (h : s.utf8ByteSize < 2 ^ 32) :
    ∃ encoded, Payload.text s = .ok encoded ∧ Decoder.text.Decodes encoded s := by
  have hlength : (Wire.ofText s).length < Payload.lengthLimit := by rwa [Wire.length_ofText]
  exact ⟨_, Payload.binary_eq_ok_iff.mpr ⟨hlength, rfl⟩, Decoder.decodes_text hlength⟩

theorem exists_encode {v : PayloadValue} (h : v.Fits) :
    ∃ encoded, v.encode = .ok encoded ∧ (Decoder.value v.type).Decodes encoded v := by
  cases v with
  | byte b => exact ⟨_, rfl, (Decoder.decodes_byte b).map _⟩
  | boolean b => exact ⟨_, rfl, (Decoder.decodes_boolean b).map _⟩
  | int n => exact ⟨_, rfl, (Decoder.decodes_int n).map _⟩
  | smallInt n => exact ⟨_, rfl, (Decoder.decodes_varint rfl).map _⟩
  | long n => exact ⟨_, rfl, (Decoder.decodes_long n).map _⟩
  | text s =>
    obtain ⟨encoded, hencoded, hdecodes⟩ := exists_text h
    exact ⟨encoded, hencoded, hdecodes.map _⟩
  | optionalText s =>
    cases s with
    | none => exact ⟨_, rfl, Decoder.decodes_optionalText_none.map _⟩
    | some s =>
      obtain ⟨encoded, hencoded, hdecodes⟩ := exists_text h
      refine ⟨_, ?_, (Decoder.decodes_optionalText_some hdecodes).map _⟩
      rw [encode, Payload.optionalText, hencoded]
      rfl
  | binary bytes => exact ⟨_, Payload.binary_eq_ok_iff.mpr ⟨h, rfl⟩, (Decoder.decodes_binary h).map _⟩

/-- Value by value. -/
theorem exists_encodeAll {vs : List PayloadValue} (h : ∀ v ∈ vs, v.Fits) :
    ∃ encoded, encodeAll vs = .ok encoded ∧ (Decoder.values (vs.map type)).Decodes encoded vs := by
  induction vs with
  | nil => exact ⟨[], rfl, Decoder.decodes_pure []⟩
  | cons v vs ih =>
    obtain ⟨hv, hvs⟩ := List.forall_mem_cons.mp h
    obtain ⟨first, hfirst, hdecodes⟩ := exists_encode hv
    obtain ⟨rest, hrest, hdecodesRest⟩ := ih hvs
    refine ⟨first ++ rest, ?_, hdecodes.bind (hdecodesRest.map (v :: ·))⟩
    rw [encodeAll, hfirst, hrest]
    rfl

end PayloadValue

/-! ## Serializers -/

/-- What fits can be written, and whatever was written is decoded again. -/
structure Serializer.Framed (s : Serializer α) (Fits : α → Prop) : Prop where
  writes : ∀ x, Fits x → ∃ bytes, s.write x = .ok bytes
  reads : ∀ x bytes, s.write x = .ok bytes → s.read.Decodes bytes x

namespace Serializer

theorem framed_text : text.Framed fun s ↦ s.utf8ByteSize < 2 ^ 32 where
  writes s hs := by
    obtain ⟨encoded, hencoded, -⟩ := PayloadValue.exists_text hs
    exact ⟨encoded, hencoded⟩
  reads s bytes h := by
    obtain ⟨hlength, rfl⟩ := Payload.binary_eq_ok_iff.mp h
    exact Decoder.decodes_text hlength

theorem framed_boolean : boolean.Framed fun _ ↦ True where
  writes b _ := ⟨_, rfl⟩
  reads b bytes h := by
    obtain rfl : Payload.boolean b = bytes := Except.ok.inj h
    exact Decoder.decodes_boolean b

section Lists

variable {element : Serializer α} {Fits : α → Prop}

theorem exists_mapM {ε : Type} {f : α → Except ε β} {xs : List α} (h : ∀ x ∈ xs, ∃ y, f x = .ok y) :
    ∃ ys, xs.mapM f = .ok ys := by
  induction xs with
  | nil => exact ⟨[], rfl⟩
  | cons x xs ih =>
    obtain ⟨⟨y, hy⟩, hxs⟩ := List.forall_mem_cons.mp h
    obtain ⟨ys, hys⟩ := ih hxs
    refine ⟨y :: ys, ?_⟩
    rw [List.mapM_cons, hy, hys]
    rfl

/-- The loop over the elements, with those that were read before. -/
theorem decodes_many (h : element.Framed Fits) {xs : List α} {encoded : List (List UInt8)}
    (hxs : xs.mapM element.write = .ok encoded) (done : List α) :
    (Decoder.many element.read xs.length done).Decodes encoded.flatten (done.reverse ++ xs) := by
  induction xs generalizing encoded done with
  | nil =>
    obtain rfl : [] = encoded := Except.ok.inj hxs
    rw [List.append_nil]
    exact Decoder.decodes_pure done.reverse
  | cons x xs ih =>
    rw [List.mapM_cons] at hxs
    obtain ⟨first, hfirst, hxs⟩ := bind_eq_ok.mp hxs
    obtain ⟨rest, hrest, hxs⟩ := bind_eq_ok.mp hxs
    obtain rfl : first :: rest = encoded := Except.ok.inj hxs
    have hdone : done.reverse ++ x :: xs = (x :: done).reverse ++ xs := by simp
    rw [hdone, List.flatten_cons]
    exact (h.reads x first hfirst).bind (ih hrest (x :: done))

/-- Lists of what can be written and read back, of lengths of 32 bits. -/
theorem Framed.list (h : element.Framed Fits) :
    (list element).Framed fun xs ↦ xs.length < 2 ^ 32 ∧ ∀ x ∈ xs, Fits x where
  writes xs hxs := by
    obtain ⟨encoded, hencoded⟩ := exists_mapM fun x hx ↦ h.writes x (hxs.2 x hx)
    refine ⟨Payload.varint xs.length ++ encoded.flatten, ?_⟩
    change (if xs.length < Payload.lengthLimit then _ else _) = _
    rw [if_pos (show xs.length < Payload.lengthLimit from hxs.1), hencoded]
    rfl
  reads xs bytes hwrite := by
    change (if xs.length < Payload.lengthLimit then _ else _) = _ at hwrite
    split at hwrite
    next hlength =>
      obtain ⟨encoded, hencoded, hbytes⟩ := bind_eq_ok.mp hwrite
      obtain rfl : Payload.varint xs.length ++ encoded.flatten = bytes := Except.ok.inj hbytes
      have hcount : xs.length.toUInt32.toNat = xs.length := by
        rw [Nat.toUInt32_eq, UInt32.toNat_ofNat_of_lt' hlength]
      refine (Decoder.decodes_varint hcount).bind ?_
      rw [hcount]
      exact decodes_many h hencoded []
    next => cases hwrite

end Lists

end Serializer

/-- Values that were encoded one behind the other are decoded by their types, with what follows them
left alone, and no strict beginning of their encoding is decoded. The same holds of the serializers
of texts and of truth values, and of lists if it holds of the elements, which may be lists. -/
theorem payloads_read_back :
    (∀ vs : List PayloadValue, (∀ v ∈ vs, v.Fits) → ∃ encoded,
      PayloadValue.encodeAll vs = .ok encoded ∧
        (Decoder.values (vs.map (·.type))).Decodes encoded vs) ∧
    (Serializer.text.Framed fun s ↦ s.utf8ByteSize < 2 ^ 32) ∧
    (Serializer.boolean.Framed fun _ ↦ True) ∧
    ∀ {α : Type} (element : Serializer α) (Fits : α → Prop), element.Framed Fits →
      (Serializer.list element).Framed fun xs ↦ xs.length < 2 ^ 32 ∧ ∀ x ∈ xs, Fits x :=
  ⟨fun _ h ↦ PayloadValue.exists_encodeAll h, Serializer.framed_text, Serializer.framed_boolean,
    fun _ _ h ↦ h.list⟩

/-- Values with and without a length, and lists of lists of texts. -/
theorem payloads_read_back_mixed :
    (∃ encoded,
      PayloadValue.encodeAll [.int (-7), .smallInt 300, .optionalText none, .text "grove"] =
        .ok encoded ∧
      (Decoder.values [.int, .smallInt, .optionalText, .text]).Decodes encoded
        [.int (-7), .smallInt 300, .optionalText none, .text "grove"]) ∧
    (Serializer.list (Serializer.list Serializer.text)).Framed fun xs ↦
      xs.length < 2 ^ 32 ∧ ∀ x ∈ xs, x.length < 2 ^ 32 ∧ ∀ s ∈ x, s.utf8ByteSize < 2 ^ 32 := by
  obtain ⟨hvalues, htext, -, hlist⟩ := payloads_read_back
  have hfits : ∀ v ∈ [.int (-7), .smallInt 300, .optionalText none, PayloadValue.text "grove"],
      v.Fits := by
    simp only [List.forall_mem_cons, List.not_mem_nil, false_imp_iff, implies_true, and_true]
    exact ⟨trivial, trivial, trivial, show "grove".utf8ByteSize < 2 ^ 32 by decide⟩
  exact ⟨hvalues _ hfits, hlist _ _ (hlist _ _ htext)⟩

end BuildScript
