import BuildScript.Proofs.Files.Writing
import BuildScript.Scripts.CompiledScript

/-!
# Reading metadata records

A record is read through a buffer, in two steps: first the flags, then the payload. What matters of
the buffer is what remains to be read. As long as the file does not change, taking bytes off what
remains is all that a decoder does, however much was fetched before; so behind the flags the payload
is read as if it stood alone.
-/

namespace BuildScript

variable {α : Type}

/-! ## Buffered sources -/

namespace ByteSource

/-- The source fetches from this content, of which it has fetched as much as its position says. -/
def Over (s : ByteSource) (content : List UInt8) : Prop := s.rest = .ok (content.drop s.position)

variable {s : ByteSource} {content : List UInt8} {n : Nat}

theorem Over.remaining_eq (h : s.Over content) :
    s.remaining = s.buffered ++ content.drop s.position := by
  rw [remaining, h]

/-- Fetching moves a chunk into the buffer, and more if more is needed, as far as there are bytes. -/
theorem Over.fetch (h : s.Over content) (needed : Nat) :
    ∃ s', s.fetch needed = .ok s' ∧ s'.Over content ∧ s'.remaining = s.remaining ∧
      min (s.buffered.length + max needed chunkSize) s.remaining.length ≤ s'.buffered.length := by
  let size := max needed chunkSize
  let fetched := (content.drop s.position).take size
  let s' : ByteSource :=
    ⟨s.buffered ++ fetched, s.position + fetched.length, .ok ((content.drop s.position).drop size)⟩
  -- A short chunk is the end of the content, so the new position is right in either case.
  have hdrop : content.drop (s.position + fetched.length) = (content.drop s.position).drop size := by
    rw [← List.drop_drop, List.length_take]
    rcases Nat.le_total size (content.drop s.position).length with hsize | hsize
    · rw [Nat.min_eq_left hsize]
    · rw [Nat.min_eq_right hsize, List.drop_length, List.drop_of_length_le hsize]
  have hover : s'.Over content := congrArg Except.ok hdrop.symm
  have hremaining : s'.remaining = s.remaining := by
    rw [hover.remaining_eq, h.remaining_eq]
    change s.buffered ++ fetched ++ content.drop (s.position + fetched.length) = _
    rw [hdrop, List.append_assoc, List.take_append_drop]
  refine ⟨s', ?_, hover, hremaining, ?_⟩
  · rw [ByteSource.fetch, h]
    rfl
  · rw [h.remaining_eq]
    change min (s.buffered.length + size) _ ≤ (s.buffered ++ fetched).length
    rw [List.length_append, List.length_append, List.length_take]
    omega

end ByteSource

/-! ## Decoders -/

theorem LittleEndian.split?_of_le {n : Nat} {l : List α} (h : n ≤ l.length) :
    split? n l = some (l.take n, l.drop n) := by
  have hlength : (l.take n).length = n := by rw [List.length_take, Nat.min_eq_left h]
  have hsplit := split?_append hlength (l.drop n)
  rwa [List.take_append_drop] at hsplit

namespace Decoder

open ByteSource

variable {s : ByteSource} {content : List UInt8}

/-- Bytes that are there are taken off, whether they were buffered or not. -/
theorem bytes_eq (h : s.Over content) {n : Nat} (hn : n ≤ s.remaining.length) :
    ∃ s', bytes n s = .ok (s.remaining.take n) s' ∧ s'.Over content ∧
      s'.remaining = s.remaining.drop n := by
  have hbuffered {s' : ByteSource} (h' : s'.Over content) (hn' : n ≤ s'.buffered.length) :
      ({ s' with buffered := s'.buffered.drop n } : ByteSource).Over content ∧
        s'.buffered.take n = s'.remaining.take n ∧
        ({ s' with buffered := s'.buffered.drop n } : ByteSource).remaining =
          s'.remaining.drop n := by
    refine ⟨h', ?_, ?_⟩
    · rw [h'.remaining_eq, List.take_append_of_le_length hn']
    · rw [h'.remaining_eq, List.drop_append_of_le_length hn']
      exact Over.remaining_eq h'
  rw [bytes]
  by_cases hbuffer : n ≤ s.buffered.length
  · obtain ⟨hover, hfront, hrest⟩ := hbuffered h hbuffer
    rw [LittleEndian.split?_of_le hbuffer, ← hfront]
    exact ⟨_, rfl, hover, hrest⟩
  · obtain ⟨s', hfetch, h', hremaining, hlength⟩ := h.fetch (n - s.buffered.length)
    have hn' : n ≤ s'.buffered.length := by omega
    obtain ⟨hover, hfront, hrest⟩ := hbuffered h' hn'
    rw [LittleEndian.split?_eq_none_iff.mpr (Nat.not_le.mp hbuffer)]
    dsimp only
    rw [hfetch]
    dsimp only
    rw [LittleEndian.split?_of_le hn', ← hremaining, ← hfront]
    exact ⟨_, rfl, hover, hrest⟩

theorem byte_of_bytes {s' : ByteSource} {b : UInt8} (h : bytes 1 s = .ok [b] s') :
    byte s = .ok b s' := by
  have hb : (LittleEndian.decode [b]).toUInt8 = b := by
    apply UInt8.toNat_inj.mp
    simp [LittleEndian.decode]
  change EStateM.bind (bytes 1) (fun x ↦ pure (LittleEndian.decode x).toUInt8) s = _
  rw [EStateM.bind, h]
  change EStateM.Result.ok (LittleEndian.decode [b]).toUInt8 s' = _
  rw [hb]

theorem byte_eq (h : s.Over content) {b : UInt8} {bs : List UInt8} (hs : s.remaining = b :: bs) :
    ∃ s', byte s = .ok b s' ∧ s'.Over content ∧ s'.remaining = bs := by
  obtain ⟨s', hbytes, h', hrest⟩ := bytes_eq h (n := 1) (by rw [hs]; exact Nat.le_add_left 1 _)
  rw [hs] at hbytes hrest
  exact ⟨s', byte_of_bytes hbytes, h', hrest⟩

theorem atEnd_eq (h : s.Over content) :
    ∃ s', atEnd s = .ok s.remaining.isEmpty s' ∧ s'.Over content ∧ s'.remaining = s.remaining := by
  rw [atEnd]
  by_cases hbuffer : s.buffered = []
  · obtain ⟨s', hfetch, h', hremaining, hlength⟩ := h.fetch 0
    -- A chunk was fetched, so an empty buffer means that nothing remains.
    have hempty : s'.buffered.isEmpty = s.remaining.isEmpty := by
      have hchunk : 0 < max 0 chunkSize := by decide
      rw [← hremaining, h'.remaining_eq] at hlength ⊢
      rw [List.length_append] at hlength
      rw [Bool.eq_iff_iff, List.isEmpty_iff, List.isEmpty_iff, List.append_eq_nil_iff]
      constructor
      · intro hnil
        refine ⟨hnil, List.length_eq_zero_iff.mp ?_⟩
        rw [hnil, List.length_nil] at hlength
        omega
      · exact And.left
    rw [hbuffer, List.isEmpty_nil, if_pos rfl, hfetch]
    dsimp only
    rw [hempty]
    exact ⟨s', rfl, h', hremaining⟩
  · have hremaining : s.remaining.isEmpty = false := by
      rw [h.remaining_eq, List.isEmpty_eq_false_iff]
      exact List.append_ne_nil_of_left_ne_nil hbuffer _
    rw [if_neg (by simpa using hbuffer), hremaining]
    exact ⟨s, rfl, h, rfl⟩

end Decoder

/-! ## Records -/

/-- What is written is read back, and nothing is written as no bytes at all. -/
structure Serializer.Faithful (s : Serializer α) : Prop where
  nonempty : ∀ d, s.write d ≠ .ok []
  reads : ∀ d bytes, s.write d = .ok bytes → ∀ source content, ByteSource.Over source content →
    source.remaining = bytes → ∃ source', s.read source = .ok d source'

theorem Serializer.faithful_boolean : boolean.Faithful where
  nonempty _ h := List.cons_ne_nil _ _ (Except.ok.inj h)
  reads b bytes hwrite source content hover hremaining := by
    obtain rfl : Payload.boolean b = bytes := Except.ok.inj hwrite
    obtain ⟨source', hbyte, -, -⟩ := Decoder.byte_eq hover hremaining
    refine ⟨source', ?_⟩
    change EStateM.bind Decoder.byte _ source = _
    rw [EStateM.bind, hbyte]
    cases b <;> rfl

namespace MetadataReader

open ByteSource

variable {r : MetadataReader} {files : FileTree} {number : Nat}

theorem source_eq (hfile : r.file = .file number) :
    r.source files =
      ⟨r.buffered, r.position, .ok ((files.content number).drop r.position)⟩ := by
  rw [source, hfile]

theorem source_over (hfile : r.file = .file number) :
    (r.source files).Over (files.content number) := by
  rw [source_eq hfile]
  rfl

/-- After a success the reader stands where the decoder has stopped. -/
theorem decode_of_ok {d : Decoder α} {x : α} {s : ByteSource} (hfile : r.file = .file number)
    (h : d (r.source files) = .ok x s) (hover : s.Over (files.content number)) :
    ∃ r', r.decode files d = (.ok x, r') ∧ r'.file = .file number ∧ r'.source files = s := by
  refine ⟨{ r with buffered := s.buffered, position := s.position }, ?_, hfile, ?_⟩
  · rw [decode, EStateM.run, h]
  · rw [source_eq (by exact hfile)]
    exact congrArg _ hover.symm

theorem openIn_of_file {directory : Path}
    (h : files.lookup (metadataFile directory) = .ok (.file number)) :
    openIn files directory = .ok { path := metadataFile directory, file := .file number } := by
  unfold openIn
  dsimp only
  rw [h]

/-- The file of a record is opened, and all of it can be read. -/
theorem exists_openIn {directory : Path} {bytes : List UInt8}
    (hread : files.read (metadataFile directory) = .ok bytes) :
    ∃ r number, openIn files directory = .ok r ∧ r.file = .file number ∧
      (r.source files).remaining = bytes := by
  obtain ⟨hlocate, number, hnode, hcontent⟩ := FileTree.read_eq_ok_iff.mp hread
  refine ⟨_, number, openIn_of_file (FileTree.lookup_eq_ok_iff.mpr ⟨hlocate, hnode⟩), rfl, ?_⟩
  rw [(source_over rfl).remaining_eq]
  exact hcontent

/-- The first byte of what remains has the flags, and the payload is behind it. -/
theorem readFlags_eq (hfile : r.file = .file number) {b : UInt8} {payload : List UInt8}
    (hremaining : (r.source files).remaining = b :: payload) :
    ∃ r', r.readFlags files = (.ok (ScriptFlags.ofByte b), r') ∧ r'.file = .file number ∧
      (r'.source files).remaining = payload := by
  obtain ⟨s, hbyte, hover, hrest⟩ := Decoder.byte_eq (source_over hfile) hremaining
  obtain ⟨r', hdecode, hfile', hsource⟩ := decode_of_ok hfile hbyte hover
  refine ⟨r', ?_, hfile', by rw [hsource, hrest]⟩
  rw [readFlags, hdecode]
  rfl

/-- Where nothing is left there are no data, and the serializer is not asked. -/
theorem readData_of_nil (serializer : Serializer α) (hfile : r.file = .file number)
    (hremaining : (r.source files).remaining = []) :
    (r.readData files serializer).1 = .ok none := by
  obtain ⟨s, hatEnd, hover, -⟩ := Decoder.atEnd_eq (source_over hfile)
  obtain ⟨r', hdecode, -⟩ := decode_of_ok hfile hatEnd hover
  rw [hremaining] at hdecode
  rw [readData, hdecode]
  rfl

/-- The data that were written are read back, and none if there were none. -/
theorem readData_eq {serializer : Serializer α} (hserializer : serializer.Faithful)
    (hfile : r.file = .file number) {data : Option α} {payload : List UInt8}
    (hpayload : payloadBytes data (some serializer) = .ok payload)
    (hremaining : (r.source files).remaining = payload) :
    (r.readData files serializer).1 = .ok data := by
  cases data with
  | none =>
    obtain rfl : [] = payload := Except.ok.inj hpayload
    exact readData_of_nil serializer hfile hremaining
  | some d =>
    obtain ⟨s, hatEnd, hover, hrest⟩ := Decoder.atEnd_eq (source_over hfile)
    obtain ⟨r', hdecode, hfile', hsource⟩ := decode_of_ok hfile hatEnd hover
    rw [hremaining] at hdecode hrest
    rw [readData, hdecode]
    have hwrite : serializer.write d = .ok payload := hpayload
    have hnonempty : payload.isEmpty = false := by
      rw [List.isEmpty_eq_false_iff]
      rintro rfl
      exact hserializer.nonempty d hwrite
    obtain ⟨s', hread⟩ := hserializer.reads d payload hwrite _ _ hover hrest
    rw [hnonempty]
    dsimp only
    rw [decode, EStateM.run, hsource, hread]
    rfl

end MetadataReader

/-- What a record keeps of data: without a serializer there is nothing. -/
def keptData (data : Option α) (serializer : Option (Serializer α)) : Option α :=
  serializer.bind fun _ ↦ data

/-- A record gives a handle with its flags and data. The loader of an empty script may leave the
cache. -/
theorem CompiledScript.ofDirectories_ok {σ : Type} (r : CompileRequest σ α) (loaderId : String)
    {b : Build} {flags : ScriptFlags} {data : Option α} {payload : List UInt8}
    (hserializer : ∀ s ∈ r.operation.bind (·.serializer), s.Faithful)
    (hpayload : payloadBytes data (r.operation.bind (·.serializer)) = .ok payload)
    (hread : b.world.files.read (metadataFile r.metadata) = .ok (flags.toByte :: payload)) :
    ∃ b', (ofDirectories r loaderId).run b =
        (.ok {
          flags, loaderId, base := r.base, directory := r.classes, parent := r.parent
          source := r.source, data := keptData data (r.operation.bind (·.serializer)) }, b') ∧
      b'.world = b.world ∧
      (b'.loaders = b.loaders ∨ b'.loaders = (b.loaders.remove loaderId).2) := by
  obtain ⟨opened, number, hopen, hopened, hremaining⟩ := MetadataReader.exists_openIn hread
  obtain ⟨reader, hflags, hfile, hrest⟩ := MetadataReader.readFlags_eq hopened hremaining
  rw [ScriptFlags.ofByte_toByte] at hflags
  rw [ofDirectories, run_bind_ok (run_get b)]
  dsimp only
  rw [run_bind_ok (run_ofExcept_ok hopen _ b),
    run_bind_ok (run_ofExcept_ok (congrArg Prod.fst hflags) _ b), hflags]
  dsimp only
  -- Reading the data comes last and does not depend on what the cache has lost before.
  cases hserial : r.operation.bind (·.serializer) with
  | none =>
    split
    · exact ⟨{ b with loaders := (b.loaders.remove loaderId).2 }, rfl, rfl, .inr rfl⟩
    · exact ⟨b, rfl, rfl, .inl rfl⟩
  | some serializer =>
    rw [hserial] at hpayload
    have hdata : (reader.readData b.world.files serializer).1 = .ok data :=
      MetadataReader.readData_eq (hserializer serializer hserial) hfile hpayload hrest
    dsimp only
    split
    · refine ⟨{ b with loaders := (b.loaders.remove loaderId).2 }, ?_, rfl, .inr rfl⟩
      rw [run_bind_ok (run_modify _ b), run_bind_ok (run_ofExcept_ok hdata _ _)]
      rfl
    · refine ⟨b, ?_, rfl, .inl rfl⟩
      rw [run_bind_ok (run_ofExcept_ok hdata _ b)]
      rfl

end BuildScript
