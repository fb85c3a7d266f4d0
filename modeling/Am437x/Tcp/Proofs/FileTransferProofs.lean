import Am437x.Tcp.FileTransfer

/-!
# Proofs: the TLS file transfer

The receive loop is reduced to the cut of the read results at the first one that is not long
(`clientMain_data`), and the blocks that `send_file` writes are cut by the length of the file modulo
`BUFFER_SIZE` (`sendFile_cut`). The results about a transfer follow from the two.
-/

namespace Am437x.FileTransfer

open Flat Tcp

/-! ## The `fread` loop -/

theorem fread_length_pos {file : List UInt8} : 0 < (fread file).1.length ↔ file ≠ [] := by
  simp [fread, bufferSize, List.length_pos_iff]

theorem freadLoop_nil {σ : Type*} (body : σ → List UInt8 → σ) (s : σ) : freadLoop body s [] = s := by
  rw [freadLoop, if_neg (by simp [fread])]

theorem freadLoop_of_ne_nil {σ : Type*} (body : σ → List UInt8 → σ) (s : σ) {file : List UInt8}
    (h : file ≠ []) :
    freadLoop body s file = freadLoop body (body s (file.take bufferSize)) (file.drop bufferSize) := by
  rw [freadLoop, if_pos (fread_length_pos.mpr h)]
  rfl

/-- Induction on a file, piece by piece. -/
theorem piece_induction {P : List UInt8 → Prop} (nil : P [])
    (piece : ∀ file, file ≠ [] → P (file.drop bufferSize) → P file) (file : List UInt8) : P file := by
  induction h : file.length using Nat.strong_induction_on generalizing file with
  | _ n ih =>
    by_cases hf : file = []
    · exact hf ▸ nil
    · have hpos : 0 < file.length := List.length_pos_iff.mpr hf
      refine piece file hf (ih _ ?_ _ rfl)
      simp only [List.length_drop, bufferSize]
      omega

theorem freadLoop_absorb (ctx file : List UInt8) :
    freadLoop (fun ctx piece => ctx ++ piece) ctx file = ctx ++ file := by
  induction file using piece_induction generalizing ctx with
  | nil => rw [freadLoop_nil, List.append_nil]
  | piece file h ih => rw [freadLoop_of_ne_nil _ _ h, ih, List.append_assoc, List.take_append_drop]

@[simp] theorem calculateSha256_eq (sha256 : Sha256) (file : List UInt8) :
    calculateSha256 sha256 file = sha256 file := by
  rw [calculateSha256, freadLoop_absorb, List.nil_append]

/-- The pieces of a file that `send_file` writes before the digest. -/
def filePieces (file : List UInt8) : List (List UInt8) :=
  freadLoop (fun sent piece => sent ++ [piece]) [] file

theorem freadLoop_collect (sent : List (List UInt8)) (file : List UInt8) :
    freadLoop (fun sent piece => sent ++ [piece]) sent file = sent ++ filePieces file := by
  unfold filePieces
  induction file using piece_induction generalizing sent with
  | nil => rw [freadLoop_nil, freadLoop_nil, List.append_nil]
  | piece file h ih =>
    rw [freadLoop_of_ne_nil _ _ h, freadLoop_of_ne_nil _ _ h, ih, ih ([] ++ _), List.nil_append,
      List.append_assoc]

@[simp] theorem filePieces_nil : filePieces [] = [] := freadLoop_nil _ _

theorem filePieces_of_ne_nil {file : List UInt8} (h : file ≠ []) :
    filePieces file = file.take bufferSize :: filePieces (file.drop bufferSize) := by
  rw [filePieces, freadLoop_of_ne_nil _ _ h, freadLoop_collect]
  rfl

theorem length_le_of_mem_filePieces {file p : List UInt8} (hp : p ∈ filePieces file) :
    p.length ≤ bufferSize := by
  induction file using piece_induction with
  | nil => simp at hp
  | piece file h ih =>
    rw [filePieces_of_ne_nil h, List.mem_cons] at hp
    rcases hp with rfl | hp
    · exact List.length_take_le _ _
    · exact ih hp

/-! ## The receive loop -/

theorem toSizeT_natCast {n : Nat} (h : n ≤ bufferSize) : toSizeT (n : Int) = n := by
  simp only [toSizeT, bufferSize] at *
  omega

theorem receiveLoop_long {c : Client} {p : List UInt8} {reads : List SslRead} (hp : IsLong p)
    (hle : p.length ≤ bufferSize) :
    receiveLoop c (.data p :: reads) =
      receiveLoop ((c.sslRead (.data p)).fwrite p.length) reads := by
  have hret : toSizeT (SslRead.data p).ret = p.length := toSizeT_natCast hle
  rw [receiveLoop, hret]
  exact if_pos hp

theorem receiveLoop_short {c : Client} {p : List UInt8} {reads : List SslRead} (hp : ¬ IsLong p)
    (hle : p.length ≤ bufferSize) :
    receiveLoop c (.data p :: reads) = some (p.length, c.sslRead (.data p)) := by
  have hret : toSizeT (SslRead.data p).ret = p.length := toSizeT_natCast hle
  rw [receiveLoop, hret]
  exact if_neg hp

theorem fwrite_sslRead_file (c : Client) (p : List UInt8) :
    ((c.sslRead (.data p)).fwrite p.length).file = c.file ++ p := by
  simp [Client.fwrite, Client.sslRead, SslRead.bytes, load_store_same]

theorem sslRead_mem_below (c : Client) (r : SslRead) {a : Int} (ha : a < 0) :
    (c.sslRead r).mem a = c.mem a :=
  store_outside _ _ _ _ (Or.inl ha)

/-- The close of the connection ends the loop like an empty read. -/
theorem receiveLoop_closed (c : Client) (reads : List SslRead) :
    receiveLoop c (reads ++ [.closed]) = receiveLoop c (reads ++ [.data []]) := by
  induction reads generalizing c with
  | nil => rfl
  | cons r reads ih => simp only [List.cons_append, receiveLoop, ih]

theorem beforeShort_cons_long {p : List UInt8} {pieces : List (List UInt8)} (hp : IsLong p) :
    beforeShort (p :: pieces) = p ++ beforeShort pieces := by
  simp [beforeShort, hp]

theorem firstShort_cons_long {p : List UInt8} {pieces : List (List UInt8)} (hp : IsLong p) :
    firstShort (p :: pieces) = firstShort pieces := by
  simp [firstShort, hp]

theorem beforeShort_cons_short {p : List UInt8} {pieces : List (List UInt8)} (hp : ¬ IsLong p) :
    beforeShort (p :: pieces) = [] := by
  simp [beforeShort, hp]

theorem firstShort_cons_short {p : List UInt8} {pieces : List (List UInt8)} (hp : ¬ IsLong p) :
    firstShort (p :: pieces) = p := by
  simp [firstShort, hp]

/-- The receive loop ends at the first read that is not long: the file holds what came before it, the
read is at the start of the buffer, and the memory below the buffer is as it was. -/
theorem receiveLoop_data {pieces : List (List UInt8)} (hle : ∀ p ∈ pieces, p.length ≤ bufferSize)
    (hshort : ∃ p ∈ pieces, ¬ IsLong p) (c : Client) :
    ∃ c', receiveLoop c (pieces.map .data) = some ((firstShort pieces).length, c') ∧
      c'.file = c.file ++ beforeShort pieces ∧
      load c'.mem 0 (firstShort pieces).length = firstShort pieces ∧
      ∀ a < 0, c'.mem a = c.mem a := by
  induction pieces generalizing c with
  | nil => simp at hshort
  | cons p pieces ih =>
    have hp := hle p (List.mem_cons_self ..)
    have hle' : ∀ q ∈ pieces, q.length ≤ bufferSize := fun q hq => hle q (List.mem_cons_of_mem _ hq)
    by_cases hlong : IsLong p
    · have hshort' : ∃ q ∈ pieces, ¬ IsLong q := by
        obtain ⟨q, hq, hqs⟩ := hshort
        rcases List.mem_cons.mp hq with rfl | hq
        · exact absurd hlong hqs
        · exact ⟨q, hq, hqs⟩
      obtain ⟨c', hrun, hfile, hbuf, hbelow⟩ :=
        ih hle' hshort' ((c.sslRead (.data p)).fwrite p.length)
      refine ⟨c', ?_, ?_, ?_, fun a ha => ?_⟩
      · rw [List.map_cons, receiveLoop_long hlong hp, hrun, firstShort_cons_long hlong]
      · rw [hfile, fwrite_sslRead_file, beforeShort_cons_long hlong, List.append_assoc]
      · rw [firstShort_cons_long hlong, hbuf]
      · rw [hbelow a ha]
        exact sslRead_mem_below c _ ha
    · refine ⟨c.sslRead (.data p), ?_, ?_, ?_, fun a ha => sslRead_mem_below c _ ha⟩
      · rw [List.map_cons, receiveLoop_short hlong hp, firstShort_cons_short hlong]
      · rw [beforeShort_cons_short hlong, List.append_nil]
        rfl
      · rw [firstShort_cons_short hlong]
        exact load_store_same _ _ _

theorem firstShort_length_le {pieces : List (List UInt8)} :
    (firstShort pieces).length ≤ sha256DigestLength := by
  induction pieces with
  | nil => simp [firstShort]
  | cons p pieces ih =>
    by_cases hp : IsLong p
    · rw [firstShort_cons_long hp]
      exact ih
    · rw [firstShort_cons_short hp]
      exact Nat.not_lt.mp hp

/-- The 32 bytes that end with a short read: stack bytes, then the read. -/
theorem receivedHash_eq {c : Client} {mem : Memory UInt8} {short : List UInt8}
    (hlen : short.length ≤ sha256DigestLength) (hbuf : load c.mem 0 short.length = short)
    (hbelow : ∀ a < 0, c.mem a = mem a) :
    c.receivedHash short.length =
      load mem ((short.length : Int) - sha256DigestLength) (sha256DigestLength - short.length) ++
        short := by
  have hsplit : sha256DigestLength = (sha256DigestLength - short.length) + short.length := by omega
  have hzero : (short.length : Int) - sha256DigestLength +
      (sha256DigestLength - short.length : Nat) = 0 := by omega
  unfold Client.receivedHash
  conv_lhs => arg 3; rw [hsplit]
  rw [load_add, hzero, hbuf]
  congr 1
  refine load_congr fun i hi => hbelow _ ?_
  omega

theorem compare_eq_ack {a b : List UInt8} : Answer.compare a b = .ack ↔ a = b := by
  unfold Answer.compare
  split <;> simp [*]

theorem compare_eq_compare {a b c d : List UInt8} :
    Answer.compare a b = Answer.compare c d ↔ (a = b ↔ c = d) := by
  rw [← compare_eq_ack, ← compare_eq_ack]
  cases Answer.compare a b <;> cases Answer.compare c d <;> decide

/-- The client as a function of the read results: the file is what comes before the first short read,
and the answer compares the 32 bytes that end with this read. -/
theorem clientMain_data {pieces : List (List UInt8)} (hle : ∀ p ∈ pieces, p.length ≤ bufferSize)
    (hshort : ∃ p ∈ pieces, ¬ IsLong p) (sha256 : Sha256) (mem : Memory UInt8) :
    clientMain sha256 mem (pieces.map .data) = some {
      receivedFile := beforeShort pieces
      answer := .compare
        (load mem (((firstShort pieces).length : Int) - sha256DigestLength)
          (sha256DigestLength - (firstShort pieces).length) ++ firstShort pieces)
        (sha256 (beforeShort pieces)) } := by
  obtain ⟨c', hrun, hfile, hbuf, hbelow⟩ :=
    receiveLoop_data hle hshort { mem := mem, file := [], fwrites := [] }
  rw [List.nil_append] at hfile
  rw [← receivedHash_eq firstShort_length_le hbuf hbelow, ← hfile]
  simp [clientMain, hrun]

/-! ## What `send_file` lets the client see -/

theorem sendFile_eq (sha256 : Sha256) (file : List UInt8) :
    sendFile sha256 file = filePieces file ++ [(sha256 file).val] := by
  rw [sendFile, calculateSha256_eq]
  rfl

theorem not_isLong_digest (sha256 : Sha256) (file : List UInt8) : ¬ IsLong (sha256 file).val := by
  simp [IsLong, (sha256 file).property]

theorem filePieces_of_full {file : List UInt8} (h : bufferSize ≤ file.length) :
    IsLong (file.take bufferSize) ∧
      filePieces file = file.take bufferSize :: filePieces (file.drop bufferSize) := by
  constructor
  · simp only [IsLong, List.length_take, bufferSize, sha256DigestLength] at *
    omega
  · refine filePieces_of_ne_nil fun hnil => ?_
    simp [hnil, bufferSize] at h

theorem filePieces_of_lt {file : List UInt8} (hne : file ≠ []) (h : file.length < bufferSize) :
    filePieces file = [file] := by
  rw [filePieces_of_ne_nil hne, List.take_of_length_le h.le, List.drop_eq_nil_of_le h.le,
    filePieces_nil]

/-- Where the client cuts the blocks written by `send_file`: after the file when its last piece is long,
and before the last piece otherwise. -/
theorem sendFile_cut (d : List UInt8) (hd : ¬ IsLong d) (file : List UInt8) :
    if LastPieceLong file then
      beforeShort (filePieces file ++ [d]) = file ∧ firstShort (filePieces file ++ [d]) = d
    else
      beforeShort (filePieces file ++ [d]) = file.take (file.length - file.length % bufferSize) ∧
        firstShort (filePieces file ++ [d]) =
          file.drop (file.length - file.length % bufferSize) := by
  induction h : file.length using Nat.strong_induction_on generalizing file with
  | _ n ih =>
    subst h
    by_cases hfull : bufferSize ≤ file.length
    · -- a full piece is long: the cut is that of the rest of the file
      obtain ⟨hlong, hpieces⟩ := filePieces_of_full hfull
      have hrest : (file.drop bufferSize).length = file.length - bufferSize := List.length_drop
      have hpos : 0 < bufferSize := by decide
      have hmod : (file.length - bufferSize) % bufferSize = file.length % bufferSize :=
        (Nat.mod_eq_sub_mod hfull).symm
      have hiff : LastPieceLong (file.drop bufferSize) ↔ LastPieceLong file := by
        unfold LastPieceLong
        rw [hrest, hmod]
      have hcut := ih _ (by omega) (file.drop bufferSize) rfl
      rw [hpieces, List.cons_append, beforeShort_cons_long hlong, firstShort_cons_long hlong]
      simp only [hiff] at hcut
      split
      · rename_i hlast
        rw [if_pos hlast] at hcut
        exact ⟨by rw [hcut.1, List.take_append_drop], hcut.2⟩
      · rename_i hlast
        rw [if_neg hlast, hrest, hmod] at hcut
        have hle : file.length % bufferSize ≤ file.length - bufferSize :=
          hmod ▸ Nat.mod_le _ _
        have hsum : file.length - file.length % bufferSize =
            bufferSize + (file.length - bufferSize - file.length % bufferSize) := by omega
        rw [hcut.1, hcut.2, hsum, List.take_add, List.drop_drop]
        exact ⟨rfl, rfl⟩
    · have hlt : file.length < bufferSize := Nat.lt_of_not_le hfull
      have hmod : file.length % bufferSize = file.length := Nat.mod_eq_of_lt hlt
      by_cases hnil : file = []
      · subst hnil
        have hlast : LastPieceLong [] := Or.inl rfl
        rw [if_pos hlast, filePieces_nil, List.nil_append, beforeShort_cons_short hd,
          firstShort_cons_short hd]
        exact ⟨rfl, rfl⟩
      · have hpos : 0 < file.length := List.length_pos_iff.mpr hnil
        rw [filePieces_of_lt hnil hlt, List.cons_append, List.nil_append]
        by_cases hlong : IsLong file
        · have hlast : LastPieceLong file := Or.inr (by rw [hmod]; exact hlong)
          rw [if_pos hlast, beforeShort_cons_long hlong, firstShort_cons_long hlong,
            beforeShort_cons_short hd, firstShort_cons_short hd, List.append_nil]
          exact ⟨rfl, rfl⟩
        · have hlast : ¬ LastPieceLong file := by
            unfold LastPieceLong IsLong at *
            omega
          rw [if_neg hlast, hmod, Nat.sub_self, beforeShort_cons_short hlong,
            firstShort_cons_short hlong]
          exact ⟨rfl, rfl⟩

/-! ## Transfers and segmented streams -/

/-- A transfer: the whole file and an ACK when the last piece is long; otherwise the last piece is
missing, and the answer depends on its bytes. -/
theorem transfer_eq (sha256 : Sha256) (mem : Memory UInt8) (file : List UInt8) :
    transfer sha256 mem file =
      if LastPieceLong file then some { receivedFile := file, answer := .ack }
      else some {
        receivedFile := file.take (file.length - file.length % bufferSize)
        answer := .compare
          (hashWindow mem file (file.length - file.length % bufferSize) (file.length % bufferSize))
          (sha256 (file.take (file.length - file.length % bufferSize))) } := by
  have hd := not_isLong_digest sha256 file
  have hle : ∀ p ∈ filePieces file ++ [(sha256 file).val], p.length ≤ bufferSize := by
    intro p hp
    rcases List.mem_append.mp hp with hp | hp
    · exact length_le_of_mem_filePieces hp
    · rw [List.mem_singleton.mp hp, (sha256 file).property]
      decide
  have hmain := clientMain_data hle ⟨_, List.mem_append_right _ (List.mem_singleton_self _), hd⟩
    sha256 mem
  have hcut := sendFile_cut _ hd file
  rw [transfer, sendFile_eq, hmain]
  by_cases hlast : LastPieceLong file
  · rw [if_pos hlast] at hcut
    rw [if_pos hlast]
    rw [hcut.1, hcut.2, (sha256 file).property, Nat.sub_self, load_zero, List.nil_append,
      compare_eq_ack.mpr rfl]
  · rw [if_neg hlast] at hcut
    rw [if_neg hlast]
    have hmod : file.length % bufferSize ≤ file.length := Nat.mod_le _ _
    have hlen : (file.drop (file.length - file.length % bufferSize)).length =
        file.length % bufferSize := by
      rw [List.length_drop]
      omega
    rw [hcut.1, hcut.2, hlen, hashWindow, List.take_of_length_le hlen.le]

/-- The stream is what comes before the first short read, and the reads from there on. -/
theorem beforeShort_append {stream : List UInt8} (seg : Segmentation stream) :
    beforeShort seg.pieces ++ (seg.pieces.dropWhile (IsLong ·)).flatten = stream := by
  rw [beforeShort, ← List.flatten_append, List.takeWhile_append_dropWhile, seg.flatten_pieces]

theorem take_markAt {stream : List UInt8} (seg : Segmentation stream) :
    stream.take seg.markAt = beforeShort seg.pieces :=
  (congrArg (List.take seg.markAt) (beforeShort_append seg)).symm.trans List.take_left

theorem take_drop_markAt {stream : List UInt8} (seg : Segmentation stream) :
    (stream.drop seg.markAt).take seg.markLength = firstShort seg.pieces := by
  have hdrop : stream.drop seg.markAt = (seg.pieces.dropWhile (IsLong ·)).flatten :=
    (congrArg (List.drop seg.markAt) (beforeShort_append seg)).symm.trans List.drop_left
  rw [hdrop]
  unfold Segmentation.markLength firstShort
  cases seg.pieces.dropWhile (IsLong ·) with
  | nil => rfl
  | cons p rest => simp

theorem markAt_le {stream : List UInt8} (seg : Segmentation stream) :
    seg.markAt ≤ stream.length := by
  have h := congrArg List.length (take_markAt seg)
  rw [List.length_take] at h
  have hmark : seg.markAt = (beforeShort seg.pieces).length := rfl
  omega

/-- The pieces of a segmentation followed by the empty read that the close stands for. -/
theorem cut_append_nil (pieces : List (List UInt8)) :
    beforeShort (pieces ++ [[]]) = beforeShort pieces ∧
      firstShort (pieces ++ [[]]) = firstShort pieces := by
  have hnil : ¬ IsLong [] := by simp [IsLong]
  induction pieces with
  | nil => exact ⟨rfl, rfl⟩
  | cons p pieces ih =>
    by_cases hp : IsLong p
    · rw [List.cons_append, beforeShort_cons_long hp, beforeShort_cons_long hp,
        firstShort_cons_long hp, firstShort_cons_long hp, ih.1]
      exact ⟨rfl, ih.2⟩
    · rw [List.cons_append, beforeShort_cons_short hp, beforeShort_cons_short hp,
        firstShort_cons_short hp, firstShort_cons_short hp]
      exact ⟨rfl, rfl⟩

/-- The client on a segmented stream: the file is the stream up to the first short read. -/
theorem receive_eq (sha256 : Sha256) (mem : Memory UInt8) {stream : List UInt8}
    (seg : Segmentation stream) :
    receive sha256 mem seg = some {
      receivedFile := stream.take seg.markAt
      answer := .compare (hashWindow mem stream seg.markAt seg.markLength)
        (sha256 (stream.take seg.markAt)) } := by
  have hclosed : receive sha256 mem seg = clientMain sha256 mem ((seg.pieces ++ [[]]).map .data) := by
    unfold receive clientMain
    rw [receiveLoop_closed, List.map_append, List.map_singleton]
  have hle : ∀ p ∈ seg.pieces ++ [[]], p.length ≤ bufferSize := by
    intro p hp
    rcases List.mem_append.mp hp with hp | hp
    · exact seg.le_of_mem p hp
    · simp [List.mem_singleton.mp hp]
  have hshort : ∃ p ∈ seg.pieces ++ [[]], ¬ IsLong p := ⟨[], by simp, by simp [IsLong]⟩
  rw [hclosed, clientMain_data hle hshort, (cut_append_nil seg.pieces).1,
    (cut_append_nil seg.pieces).2, hashWindow, take_drop_markAt, take_markAt]
  rfl

/-! ## Main results -/

theorem transfer_delivers_iff (sha256 : Sha256) (mem : Memory UInt8) (file : List UInt8) :
    transfer sha256 mem file = some { receivedFile := file, answer := .ack } ↔
      LastPieceLong file := by
  rw [transfer_eq]
  split
  · rename_i hlast
    simp [hlast]
  · rename_i hlast
    refine iff_of_false (fun h => ?_) hlast
    -- the received file lacks the last piece, which is not empty
    have hfile := congrArg (fun o => o.map fun o => o.receivedFile.length) h
    simp only [Option.map_some, Option.some.injEq, List.length_take] at hfile
    have hmod : file.length % bufferSize ≤ file.length := Nat.mod_le _ _
    unfold LastPieceLong at hlast
    omega

/-- A file of 32 bytes is taken for the digest: nothing is written. -/
theorem short_file_not_delivered :
    transfer (fun _ => ⟨List.replicate 32 0, rfl⟩) (fun _ => 0) (List.replicate 32 0x41) ≠
      some { receivedFile := List.replicate 32 0x41, answer := .ack } := by
  rw [transfer_eq, if_neg (by decide)]
  decide

/-- An ACK means that the file was received, except when the last piece is short and makes up, with the
stack bytes below the buffer, the digest of the bytes before it. -/
theorem ack_means_received_iff (sha256 : Sha256) (mem : Memory UInt8) (file : List UInt8) :
    (∀ o, transfer sha256 mem file = some o → o.answer = .ack → o.receivedFile = file) ↔
      LastPieceLong file ∨
        ¬ DigestMatches sha256 mem file (file.length - file.length % bufferSize)
          (file.length % bufferSize) := by
  rw [transfer_eq]
  by_cases hlast : LastPieceLong file
  · rw [if_pos hlast]
    refine iff_of_true (fun o ho _ => ?_) (Or.inl hlast)
    rw [← Option.some.inj ho]
  · rw [if_neg hlast]
    have hne : file.take (file.length - file.length % bufferSize) ≠ file := by
      intro h
      have hlen := congrArg List.length h
      rw [List.length_take] at hlen
      unfold LastPieceLong at hlast
      have hmod : file.length % bufferSize ≤ file.length := Nat.mod_le _ _
      omega
    constructor
    · intro h
      refine Or.inr fun hmatch => hne ?_
      exact h _ rfl (compare_eq_ack.mpr hmatch)
    · rintro (h | hmatch) o ho hack
      · exact absurd h hlast
      · rw [← Option.some.inj ho] at hack
        exact absurd (compare_eq_ack.mp hack) hmatch

/-- A digest that repeats the length of the file. -/
def lengthDigest : Sha256 := fun file =>
  ⟨List.replicate sha256DigestLength (UInt8.ofNat file.length), List.length_replicate⟩

/-- A file that is the digest of its own empty prefix is acknowledged with nothing received, although no
proper prefix has the digest of the file. -/
theorem embedded_digest_acknowledged :
    (∀ n < 32, (lengthDigest ((List.replicate 32 0).take n)).val ≠
      (lengthDigest (List.replicate 32 0)).val) ∧
    transfer lengthDigest (fun _ => 0) (List.replicate 32 0) =
      some { receivedFile := [], answer := .ack } := by
  refine ⟨by decide, ?_⟩
  rw [transfer_eq, if_neg (by decide)]
  decide

/-- Two ways of cutting a stream have the same outcome just when the first short read is at the same
place, and in both or in neither it completes the digest of what came before. -/
theorem receive_eq_iff (sha256 : Sha256) (mem : Memory UInt8) {stream : List UInt8}
    (seg₁ seg₂ : Segmentation stream) :
    receive sha256 mem seg₁ = receive sha256 mem seg₂ ↔
      seg₁.markAt = seg₂.markAt ∧
        (DigestMatches sha256 mem stream seg₁.markAt seg₁.markLength ↔
          DigestMatches sha256 mem stream seg₂.markAt seg₂.markLength) := by
  have hfile : stream.take seg₁.markAt = stream.take seg₂.markAt ↔ seg₁.markAt = seg₂.markAt := by
    constructor
    · intro h
      have hlen := congrArg List.length h
      rw [List.length_take, List.length_take] at hlen
      have h₁ := markAt_le seg₁
      have h₂ := markAt_le seg₂
      omega
    · intro h
      rw [h]
  rw [receive_eq, receive_eq, Option.some.injEq, Outcome.mk.injEq, hfile, compare_eq_compare]
  exact Iff.rfl

/-- A stream of 40 file bytes and their digest, read in these two pieces. -/
def cutAtDigest : Segmentation (List.replicate 40 1 ++ List.replicate 32 40) where
  pieces := [List.replicate 40 1, List.replicate 32 40]
  flatten_pieces := by decide
  pos_of_mem := by decide
  le_of_mem := by decide

def cutAtFirstByte : Segmentation (List.replicate 40 1 ++ List.replicate 32 40) where
  pieces := [[1], List.replicate 39 1 ++ List.replicate 32 40]
  flatten_pieces := by decide
  pos_of_mem := by decide
  le_of_mem := by decide

/-- The file is received and acknowledged in the first case; in the second it is neither. -/
theorem outcome_depends_on_cut :
    receive lengthDigest (fun _ => 0) cutAtDigest =
      some { receivedFile := List.replicate 40 1, answer := .ack } ∧
    receive lengthDigest (fun _ => 0) cutAtFirstByte =
      some { receivedFile := [], answer := .nack } := by
  rw [receive_eq, receive_eq]
  decide

end Am437x.FileTransfer
