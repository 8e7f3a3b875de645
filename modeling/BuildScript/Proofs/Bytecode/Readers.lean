import Mathlib.Algebra.Group.Nat.Defs
import BuildScript.Bytecode.Wire

/-!
# Readers and what they read

Three judgements about a reader. `Reads r bytes x` says that `r` takes exactly these bytes off the
front of any input and gives `x`; it is how a writer and its reader are shown to fit. `Gives r P`
says that whatever `r` gives has the property `P`; it bounds what can come out of an input that no
writer has made. `Exact r` says that `r` depends on nothing but the bytes that it takes: each of its
results is one that it reads. All of them are closed under sequencing, so a reader made of fields is
treated field by field, and the loop of a table is one lemma for each.
-/

namespace BuildScript

namespace Wire

@[simp] theorem length_ofText (s : String) : (ofText s).length = s.utf8ByteSize :=
  String.size_toByteArray

theorem toText?_ofText (s : String) : toText? (ofText s) = some s := by
  rw [toText?, ofText, Array.toArray_toList, String.fromUTF8?, String.toUTF8, dif_pos s.isValidUTF8]
  rfl

theorem utf8ByteSize_of_toText? {bytes : List UInt8} {s : String} (h : toText? bytes = some s) :
    s.utf8ByteSize = bytes.length := by
  rw [toText?, String.fromUTF8?] at h
  split at h
  · cases h
    rw [← String.size_toByteArray]
    exact List.size_toArray
  · cases h

end Wire

namespace Reader

variable {α β : Type} {r : Reader α} {k : α → Reader β} {x : α} {y : β} {a b : List UInt8}

/-! ## Reading what was written -/

/-- The reader takes exactly these bytes off the front of any input and gives the value. -/
def Reads (r : Reader α) (bytes : List UInt8) (x : α) : Prop :=
  ∀ position rest, r ⟨position, bytes ++ rest, true⟩ = .ok x ⟨position + bytes.length, rest, true⟩

theorem bind_of_ok {c c' : ByteCursor} (h : r c = .ok x c') : (r >>= k) c = k x c' := by
  change EStateM.bind r k c = k x c'
  rw [EStateM.bind, h]

theorem reads_pure (x : α) : Reads (pure x) [] x := fun _ _ ↦ rfl

theorem Reads.bind (hr : Reads r a x) (hk : Reads (k x) b y) : Reads (r >>= k) (a ++ b) y := by
  intro position rest
  rw [List.append_assoc, bind_of_ok (hr _ _), hk, List.length_append, Nat.add_assoc]

/-- A result that only depends on what was read takes no more bytes. -/
theorem Reads.map (hr : Reads r a x) (f : α → β) : Reads (do return f (← r)) a (f x) := by
  have h := hr.bind (k := fun x ↦ pure (f x)) (reads_pure (f x))
  rwa [List.append_nil] at h

/-- What is read off the front of an input is determined by it, and so is what stands behind. -/
theorem Reads.unique {a' rest rest' : List UInt8} {x' : α} (h : Reads r a x) (h' : Reads r a' x')
    (heq : a ++ rest = a' ++ rest') : x = x' ∧ rest = rest' := by
  have hread := h 0 rest
  rw [heq, h' 0 rest'] at hread
  injection hread with hvalue hcursor
  injection hcursor with _ hrest
  exact ⟨hvalue.symm, hrest.symm⟩

theorem reads_bytes (bytes : List UInt8) : Reads (Reader.bytes bytes.length) bytes bytes := by
  intro position rest
  rw [Reader.bytes]
  dsimp only
  rw [if_pos rfl, LittleEndian.split?_append rfl]

theorem reads_number {n k : Nat} (hn : n < 256 ^ k) :
    Reads (number k) (LittleEndian.encode k n) n := by
  have h := (reads_bytes (LittleEndian.encode k n)).map LittleEndian.decode
  rw [LittleEndian.length_encode, LittleEndian.decode_encode, Nat.pow_eq, Nat.mod_eq_of_lt hn] at h
  exact h

theorem reads_half (x : UInt16) : Reads half (Wire.half x) x := by
  have h := (reads_number (k := 2) x.toNat_lt).map (·.toUInt16)
  rwa [Nat.toUInt16_eq, UInt16.ofNat_toNat] at h

theorem reads_word (x : UInt32) : Reads word (Wire.word x) x := by
  have h := (reads_number (k := 4) x.toNat_lt).map (·.toUInt32)
  rwa [Nat.toUInt32_eq, UInt32.ofNat_toNat] at h

theorem reads_integer (x : Int64) : Reads integer (Wire.integer x) x := by
  have h := (reads_number (k := 8) x.toUInt64.toNat_lt).map (·.toUInt64.toInt64)
  rwa [Nat.toUInt64_eq, UInt64.ofNat_toNat, Int64.toInt64_toUInt64] at h

theorem reads_float (x : Binary64) : Reads float (Wire.float x) x := by
  have h := (reads_number (k := 8) x.bits.toNat_lt).map fun n ↦ (⟨n.toUInt64⟩ : Binary64)
  rwa [Nat.toUInt64_eq, UInt64.ofNat_toNat] at h

/-- The part of a text behind its length. -/
theorem reads_chars {bytes : List UInt8} {s : String} (h : Wire.toText? bytes = some s) :
    Reads (do
      let start := (← get).position
      match Wire.toText? (← Reader.bytes bytes.length) with
      | some s => return s
      | none => throw (.invalidUtf8 start)) bytes s := by
  intro position rest
  rw [bind_of_ok (show (get : Reader ByteCursor) _ = .ok _ _ from rfl),
    bind_of_ok (reads_bytes bytes _ _), h]
  rfl

theorem reads_text {s : String} (hs : s.utf8ByteSize < 2 ^ 32) : Reads text (Wire.text s) s := by
  have hchars := reads_chars (Wire.toText?_ofText s)
  rw [Wire.length_ofText] at hchars
  exact (reads_number hs).bind hchars

theorem reads_byte (x : UInt8) : Reads byte [x] x := by
  have h := (reads_number (k := 1) x.toNat_lt).map (·.toUInt8)
  rw [LittleEndian.encode, LittleEndian.encode, Nat.toUInt8_eq, UInt8.ofNat_toNat] at h
  exact h

theorem reads_optionalText {s : Option String} (hs : ∀ t ∈ s, t.utf8ByteSize < 2 ^ 32) :
    Reads optionalText (Wire.optionalText s) s := by
  rw [optionalText]
  cases s with
  | none => exact (reads_byte 0).bind (reads_pure none)
  | some t => exact (reads_byte 1).bind ((reads_text (hs t rfl)).map some)

/-! ### Tables -/

section Tables

variable {entry : Reader α} {write : α → List UInt8}

/-- One round of the loop for each entry. -/
theorem reads_many {xs : List α} (h : ∀ x ∈ xs, Reads entry (write x) x) (done : Array α) :
    Reads (many entry xs.length done) (xs.flatMap write) (done ++ xs.toArray) := by
  induction xs generalizing done with
  | nil =>
    rw [Array.append_empty]
    exact reads_pure done
  | cons x xs ih =>
    rw [List.forall_mem_cons] at h
    have hpush : done ++ (x :: xs).toArray = done.push x ++ xs.toArray := by
      rw [Array.push_eq_append, Array.append_assoc]
      simp
    rw [hpush]
    exact h.1.bind (ih h.2 (done.push x))

theorem reads_table {xs : Array α} (hsize : xs.size < 2 ^ 32)
    (h : ∀ x ∈ xs, Reads entry (write x) x) :
    Reads (table entry) (Wire.table write xs.toList) xs := by
  have hmany : Reads (many entry xs.toList.length #[]) (xs.toList.flatMap write)
      (#[] ++ xs.toList.toArray) :=
    reads_many (fun x hx ↦ h x (Array.mem_toList_iff.mp hx)) #[]
  rw [Array.toArray_toList, Array.empty_append] at hmany
  exact (reads_number hsize).bind hmany

end Tables

/-! ## What can be read -/

/-- Whatever the reader gives has the property. -/
def Gives (r : Reader α) (P : α → Prop) : Prop := ∀ c x c', r c = .ok x c' → P x

theorem Gives.mono {P Q : α → Prop} (h : Gives r P) (hPQ : ∀ x, P x → Q x) : Gives r Q :=
  fun c x c' hx ↦ hPQ x (h c x c' hx)

theorem gives_pure {P : α → Prop} (hx : P x) : Gives (pure x) P := by
  intro c y c' h
  cases h
  exact hx

theorem Gives.bind {P : α → Prop} {Q : β → Prop} (hr : Gives r P)
    (hk : ∀ x, P x → Gives (k x) Q) : Gives (r >>= k) Q := by
  intro c y c' h
  change EStateM.bind r k c = .ok y c' at h
  rw [EStateM.bind] at h
  split at h
  · next x c₁ hx => exact hk x (hr c x c₁ hx) c₁ y c' h
  · cases h

theorem gives_true (r : Reader α) : Gives r fun _ ↦ True := fun _ _ _ _ ↦ trivial

theorem gives_bytes (k : Nat) : Gives (bytes k) fun bytes ↦ bytes.length = k := by
  intro c front c' h
  rw [bytes] at h
  split at h
  · rw [LittleEndian.split?] at h
    split at h
    · next front' rest hsplit =>
      cases h
      split at hsplit
      · cases hsplit
      · next hlen =>
        cases hsplit
        rw [List.length_take] at hlen ⊢
        omega
    · cases h
  · cases h

theorem decode_lt (bytes : List UInt8) : LittleEndian.decode bytes < 256 ^ bytes.length := by
  induction bytes with
  | nil => exact Nat.one_pos
  | cons b bytes ih =>
    have hb : b.toNat < 256 := b.toNat_lt
    rw [LittleEndian.decode, List.length_cons, Nat.pow_succ]
    omega

theorem gives_number (k : Nat) : Gives (number k) fun n ↦ n < 256 ^ k :=
  (gives_bytes k).bind fun bytes hbytes ↦ gives_pure (hbytes ▸ decode_lt bytes)

theorem gives_throw {P : α → Prop} (e : ReadError) : Gives (throw e) P := by
  intro c x c' h
  cases h

theorem gives_text : Gives text fun s ↦ s.utf8ByteSize < 2 ^ 32 := by
  refine (gives_number 4).bind fun n hn ↦ (gives_true _).bind fun c _ ↦
    (gives_bytes n).bind fun bytes hbytes ↦ ?_
  cases hs : Wire.toText? bytes with
  | none => exact gives_throw _
  | some s =>
    refine gives_pure ?_
    rwa [Wire.utf8ByteSize_of_toText? hs, hbytes]

theorem gives_optionalText : Gives optionalText fun s ↦ ∀ t ∈ s, t.utf8ByteSize < 2 ^ 32 := by
  refine (gives_true byte).bind fun b _ ↦ ?_
  split
  · exact gives_pure nofun
  · refine gives_text.bind fun s hs ↦ gives_pure fun t ht ↦ ?_
    cases ht
    exact hs

theorem gives_many {entry : Reader α} {P : α → Prop} (h : Gives entry P) (n : Nat)
    (done : Array α) (hdone : ∀ x ∈ done, P x) :
    Gives (many entry n done) fun xs ↦ xs.size = done.size + n ∧ ∀ x ∈ xs, P x := by
  induction n generalizing done with
  | zero => exact gives_pure ⟨rfl, hdone⟩
  | succ n ih =>
    refine h.bind fun x hx ↦ (ih (done.push x) fun y hy ↦ ?_).mono fun xs hxs ↦ ⟨?_, hxs.2⟩
    · rcases Array.mem_push.mp hy with hy | rfl
      · exact hdone y hy
      · exact hx
    · rw [hxs.1, Array.size_push, Nat.add_right_comm, Nat.add_assoc]

theorem gives_table {entry : Reader α} {P : α → Prop} (h : Gives entry P) :
    Gives (table entry) fun xs ↦ xs.size < 2 ^ 32 ∧ ∀ x ∈ xs, P x := by
  refine (gives_number 4).bind fun n hn ↦ (gives_many h n #[] nofun).mono fun xs hxs ↦ ?_
  refine ⟨?_, hxs.2⟩
  rw [hxs.1, List.size_toArray, List.length_nil, Nat.zero_add]
  exact hn

/-! ## What was taken -/

/-- Whatever the reader gives, it gives for the bytes that it has taken, whatever stands behind
them. -/
def Exact (r : Reader α) : Prop :=
  ∀ c x c', r c = .ok x c' → ∃ taken, c.rest = taken ++ c'.rest ∧ Reads r taken x

theorem exact_pure (x : α) : Exact (pure x) := by
  intro c y c' h
  cases h
  exact ⟨[], rfl, reads_pure x⟩

theorem Exact.bind (hr : Exact r) (hk : ∀ x, Exact (k x)) : Exact (r >>= k) := by
  intro c y c' h
  change EStateM.bind r k c = .ok y c' at h
  rw [EStateM.bind] at h
  split at h
  · next x c₁ hx =>
    obtain ⟨a, ha, hreads⟩ := hr c x c₁ hx
    obtain ⟨b, hb, hreads'⟩ := hk x c₁ y c' h
    exact ⟨a ++ b, by rw [ha, hb, List.append_assoc], hreads.bind hreads'⟩
  · cases h

/-- A result that only depends on what was read depends on no other bytes. -/
theorem Exact.map {f : α → β} (hr : Exact r) : Exact (do return f (← r)) :=
  hr.bind fun x ↦ exact_pure (f x)

theorem rest_of_bytes {n : Nat} {c c' : ByteCursor} {front : List UInt8}
    (h : bytes n c = .ok front c') : c.rest = front ++ c'.rest := by
  rw [bytes] at h
  split at h
  · split at h
    · next hsplit =>
      cases h
      rw [LittleEndian.split?] at hsplit
      split at hsplit
      · cases hsplit
      · cases hsplit
        exact (List.take_append_drop n c.rest).symm
    · cases h
  · cases h

theorem exact_bytes (n : Nat) : Exact (bytes n) := by
  intro c front c' h
  have hlength : front.length = n := gives_bytes n c front c' h
  exact ⟨front, rest_of_bytes h, hlength ▸ reads_bytes front⟩

theorem exact_number (n : Nat) : Exact (number n) := (exact_bytes n).map

/-- Any four bytes are those of a word. -/
theorem word_decode {bytes : List UInt8} (h : bytes.length = 4) :
    Wire.word (LittleEndian.decode bytes).toUInt32 = bytes := by
  have hlt : LittleEndian.decode bytes < 2 ^ 32 := by
    have := decode_lt bytes
    rwa [h] at this
  rw [Wire.word, Nat.toUInt32_eq, UInt32.toNat_ofNat_of_lt' hlt, ← h, LittleEndian.encode_decode]

/-- A word is read from its bytes. -/
theorem rest_of_word {c c' : ByteCursor} {x : UInt32} (h : word c = .ok x c') :
    c.rest = Wire.word x ++ c'.rest := by
  change EStateM.bind (EStateM.bind (bytes 4) fun front ↦ pure (LittleEndian.decode front))
    (fun n ↦ pure n.toUInt32) c = .ok x c' at h
  rw [EStateM.bind, EStateM.bind] at h
  cases hfront : bytes 4 c with
  | error e c₁ =>
    rw [hfront] at h
    cases h
  | ok front c₁ =>
    rw [hfront] at h
    cases h
    rw [word_decode (gives_bytes 4 c front _ hfront)]
    exact rest_of_bytes hfront
theorem exact_text : Exact text := by
  refine (exact_number 4).bind fun n c s c' h ↦ ?_
  change EStateM.bind (bytes n) _ c = .ok s c' at h
  rw [EStateM.bind] at h
  split at h
  · next front c₁ hfront =>
    obtain rfl : front.length = n := gives_bytes n c front c₁ hfront
    have hrest := rest_of_bytes hfront
    cases htext : Wire.toText? front with
    | none =>
      rw [htext] at h
      cases h
    | some t =>
      rw [htext] at h
      cases h
      exact ⟨front, hrest, reads_chars htext⟩
  · cases h

theorem exact_optionalText : Exact optionalText := by
  refine (exact_number 1).map.bind fun presence ↦ ?_
  split
  · exact exact_pure none
  · exact exact_text.map

theorem exact_many {entry : Reader α} (h : Exact entry) (n : Nat) (done : Array α) :
    Exact (many entry n done) := by
  induction n generalizing done with
  | zero => exact exact_pure done
  | succ n ih => exact h.bind fun x ↦ ih (done.push x)

theorem exact_table {entry : Reader α} (h : Exact entry) : Exact (table entry) :=
  (exact_number 4).bind fun n ↦ exact_many h n #[]

end Reader

end BuildScript
