import DashDim.Codec.RoundTrip
import Mathlib.Data.List.TakeWhile

/-!
# File transfer

The file sender and the file server, as in `tools/f_sender.cc` and `tools/f_server.cc`. A
file is sent as a header (the size of its name, its name, its size) and its content. The
server gathers what it reads until the header is complete, opens a file of that name in
its folder, writes what follows the header, and replies how much it received when the file
has the size that the header says.

What the server does to its socket and to its file is kept in the order it is done.

* `Sound`: what an endpoint has done, for what it has received of a file that is sent;
* `transfer_exact`: however the bytes of a file are cut into reads, the file is written as
  it is, and the sender is told so.
-/

namespace DashDim

/-- The bytes of a C string. -/
abbrev CString := {s : Bytes // (0 : UInt8) ∉ s}

/-- What a function that takes a C string sees of a string. -/
def cStr (s : Bytes) : Bytes := s.takeWhile (· ≠ 0)

theorem cStr_eq {s : Bytes} (h : (0 : UInt8) ∉ s) : cStr s = s := by
  rw [cStr, List.takeWhile_eq_self_iff]
  intro b hb
  rw [decide_eq_true_eq]
  rintro rfl
  exact h hb

/-! ## The server -/

/-- What an endpoint does to its file and to its socket. -/
inductive FileEffect
  | fopen (pathname : Bytes)
  | fwrite (data : Bytes)
  | send (data : Bytes)
  | close
  | fclose
  deriving DecidableEq, Repr

/-- The receiving end: what it has read of the header, what it has written, and what it did. -/
structure FileEndpoint where
  folder : Bytes
  fdOpen : Bool := true
  fpOpen : Bool := false
  destroyed : Bool := false
  metaBuf : Bytes := []
  fileBytes : UInt32 := 0
  writeBytes : UInt32 := 0
  metaParsed : Bool := false
  recvBytes : Int32 := 0
  effects : List FileEffect := []
  deriving DecidableEq, Repr

namespace FileEndpoint

/-- The bytes of one read. -/
def kBufferSize : ℕ := 1500

/-- The delimiter of a path. -/
def delimiter : Bytes := [0x2f]

/-- `DeleteSelf`: posts the deletion. -/
def deleteSelf (s : FileEndpoint) : FileEndpoint := { s with destroyed := true }

/-- `CloseFd`: both descriptors, whichever are open. -/
def closeFd (s : FileEndpoint) : FileEndpoint :=
  let s := if s.fdOpen then { s with fdOpen := false, effects := s.effects ++ [.close] } else s
  let s := if s.fpOpen then { s with fpOpen := false, effects := s.effects ++ [.fclose] } else s
  s.deleteSelf

/-- `ReplyDone`: the bytes received as four bytes, and the end. -/
def replyDone (s : FileEndpoint) : FileEndpoint :=
  let buffer := ((DataWriter.new (List.replicate 4 0)).writeUInt32 s.recvBytes.toUInt32).2.buffer
  closeFd { s with effects := s.effects ++ [.send buffer] }

/-- `Write2File` -/
def write2File (buffer : Bytes) (s : FileEndpoint) : FileEndpoint :=
  let s := { s with
    effects := s.effects ++ [.fwrite buffer]
    writeBytes := s.writeBytes + UInt32.ofNat buffer.length }
  if s.writeBytes = s.fileBytes then s.replyDone else s

/-- `ParserMeta`, for which files can be opened. -/
def parserMeta (opens : Bytes → Bool) (buffer : Bytes) (s : FileEndpoint) : FileEndpoint :=
  let metaBuf := s.metaBuf ++ buffer
  match DataReader.readUInt16 (DataReader.new metaBuf) with
  | (none, _) => { s with metaBuf := metaBuf }
  | (some nameSz, reader) =>
    if nameSz.toNat + 4 ≤ reader.bytesRemaining then
      let hz := 2 + nameSz.toNat + 4
      let (name, reader) := reader.readBytes nameSz.toNat
      let (fileBytes, _) := DataReader.readUInt32 reader
      let pathname := cStr (s.folder ++ delimiter ++
        name.getD (List.replicate nameSz.toNat 0))
      let s := { s with
        metaBuf := metaBuf
        fileBytes := fileBytes.getD s.fileBytes
        metaParsed := true
        effects := s.effects ++ [FileEffect.fopen pathname]
        fpOpen := opens pathname }
      if s.fpOpen then
        let remain := metaBuf.length - hz
        let s := if remain > 0 then s.write2File (metaBuf.drop hz) else s
        { s with metaBuf := [] }
      else s.closeFd
    else { s with metaBuf := metaBuf }

/-- What `OnReadEvent` does for a read, of no bytes at the end of the stream. A closed
    socket is not read. -/
def onRead (opens : Bytes → Bool) (s : FileEndpoint) (buffer : Bytes) : FileEndpoint :=
  if s.fdOpen then
    if buffer = [] then s.closeFd
    else
      let s := { s with recvBytes := s.recvBytes + Int32.ofNat buffer.length }
      if s.metaParsed then s.write2File buffer else s.parserMeta opens buffer
  else s

/-- `OnReadEvent`, for the reads of the event. -/
def onReadEvent (opens : Bytes → Bool) (s : FileEndpoint) (reads : List Bytes) : FileEndpoint :=
  reads.foldl (onRead opens) s

/-- An endpoint that starts with a socket, and the events that follow. -/
def run (opens : Bytes → Bool) (folder : Bytes) (events : List (List Bytes)) : FileEndpoint :=
  events.foldl (onReadEvent opens) { folder := folder }

end FileEndpoint

/-! ## The sender -/

namespace FileSender

/-- The bytes of one write of `send_file`. -/
def kBufferSize : ℕ := 1500

/-- The header of a file: what is in the buffer after the writes. -/
def metaData (name : Bytes) (fileBytes : Int32) : Bytes :=
  (writeAll [(DataWriter.writeUInt16 · (UInt16.ofNat name.length)),
    (DataWriter.writeBytes · name), (DataWriter.writeUInt32 · fileBytes.toUInt32)]
    (DataWriter.new (List.replicate kBufferSize 0))).2.written

/-- The writes of a part of the file, for how many bytes the socket takes of each, and the
    answers that are left: a write that blocks takes a byte at least, and without an answer
    it takes all. -/
def writeLoop : List ℕ → Bytes → List Bytes × List ℕ
  | [], buffer => if buffer = [] then ([], []) else ([buffer], [])
  | answer :: answers, buffer =>
    if buffer = [] then ([], answer :: answers)
    else
      let wz := min (max answer 1) buffer.length
      let (writes, rest) := writeLoop answers (buffer.drop wz)
      (buffer.take wz :: writes, rest)

/-- The writes of the file, read a buffer at a time: as many reads as it has bytes are
    enough. -/
def sendLoop : ℕ → List ℕ → Bytes → List Bytes
  | 0, _, _ => []
  | reads + 1, answers, file =>
    if file = [] then []
    else
      let (writes, answers) := writeLoop answers (file.take kBufferSize)
      writes ++ sendLoop reads answers (file.drop kBufferSize)

/-- What `send_file` writes, once it is connected: how much the socket takes of the header
    comes first in the answers. -/
def writesOf (name file : Bytes) (metaAnswer : ℕ) (answers : List ℕ) : List Bytes :=
  let fileBytes := Int32.ofNat file.length
  if fileBytes ≤ 0 then []
  else
    let buffer := metaData name fileBytes
    if min metaAnswer buffer.length ≠ buffer.length then [buffer.take metaAnswer]
    else buffer :: sendLoop file.length answers file

/-- What `send_file` returns, for what it reads of the reply. -/
def sendFile (name file : Bytes) (metaAnswer : ℕ) (answers : List ℕ) (reply : Bytes) : Int32 :=
  let fileBytes := Int32.ofNat file.length
  if fileBytes ≤ 0 then -1
  else
    let buffer := metaData name fileBytes
    let metaSz := Int32.ofNat buffer.length
    if min metaAnswer buffer.length ≠ buffer.length then -1
    else
      let sendBytes := Int32.ofNat (sendLoop file.length answers file).flatten.length
      let recvBytes := (DataReader.readUInt32 (DataReader.new reply)).1.getD 0
      if sendBytes = fileBytes ∧ recvBytes = (fileBytes + metaSz).toUInt32 then 0 else -1

theorem writeLoop_flatten (answers : List ℕ) (buffer : Bytes) :
    (writeLoop answers buffer).1.flatten = buffer := by
  induction answers generalizing buffer with
  | nil =>
    rw [writeLoop]
    split_ifs with hempty
    · exact hempty.symm
    · rw [List.flatten_singleton]
  | cons answer answers ih =>
    rw [writeLoop]
    split_ifs with hempty
    · exact hempty.symm
    · dsimp only
      rw [List.flatten_cons, ih, List.take_append_drop]

/-- The file is written as it is. -/
theorem sendLoop_flatten {reads : ℕ} (answers : List ℕ) {file : Bytes}
    (h : file.length ≤ reads) : (sendLoop reads answers file).flatten = file := by
  induction reads generalizing answers file with
  | zero =>
    rw [sendLoop, List.length_eq_zero_iff.1 (Nat.le_zero.1 h), List.flatten_nil]
  | succ reads ih =>
    rw [sendLoop]
    split_ifs with hempty
    · exact hempty.symm
    · have hlt : (file.drop kBufferSize).length ≤ reads := by
        rw [List.length_drop, kBufferSize]
        omega
      dsimp only
      rw [List.flatten_append, writeLoop_flatten, ih _ hlt, List.take_append_drop]

end FileSender

/-! ## A file that is sent -/

/-- A file that is sent: its name fits in a header, and its size is an `int`. -/
structure SentFile where
  name : CString
  content : Bytes
  name_pos : 1 ≤ name.1.length
  name_le : name.1.length ≤ 1494
  content_pos : 1 ≤ content.length
  content_le : content.length ≤ 2 ^ 31 - 2000

namespace SentFile

variable (f : SentFile)

/-- The bytes before the content. -/
def header : Bytes :=
  uIntImage .networkByteOrder 2 f.name.1.length ++ f.name.1 ++
    uIntImage .networkByteOrder 4 f.content.length

theorem header_length : f.header.length = 2 + f.name.1.length + 4 := by
  rw [header, List.length_append, List.length_append, uIntImage_length, uIntImage_length]

theorem toNat_name : (UInt16.ofNat f.name.1.length).toNat = f.name.1.length := by
  have hle := f.name_le
  rw [UInt16.toNat_ofNat']
  omega

theorem toNat_content : (UInt32.ofNat f.content.length).toNat = f.content.length := by
  have hle := f.content_le
  rw [UInt32.toNat_ofNat']
  omega

/-- The header is what the sender writes first. -/
theorem metaData_eq :
    FileSender.metaData f.name.1 (Int32.ofNat f.content.length) = f.header := by
  have himage : List.flatMap (Write.image .networkByteOrder)
      [.uInt16 (UInt16.ofNat f.name.1.length), .bytes f.name.1,
        .uInt32 (UInt32.ofNat f.content.length)] = f.header := by
    rw [List.flatMap_cons, List.flatMap_cons, List.flatMap_cons, List.flatMap_nil,
      List.append_nil, Write.image, Write.image, Write.image, toNat_name, toNat_content, header,
      List.append_assoc]
  have hroom : (List.flatMap (Write.image .networkByteOrder)
      [.uInt16 (UInt16.ofNat f.name.1.length), .bytes f.name.1,
        .uInt32 (UInt32.ofNat f.content.length)]).length ≤
      (List.replicate FileSender.kBufferSize (0 : UInt8)).length := by
    have hle := f.name_le
    rw [himage, header_length, List.length_replicate, FileSender.kBufferSize]
    omega
  obtain ⟨w, hw, hwritten, -⟩ := written_of_fixed (by simp [Write.Fixed]) hroom
  have hrun : writeAll [(DataWriter.writeUInt16 · (UInt16.ofNat f.name.1.length)),
      (DataWriter.writeBytes · f.name.1),
      (DataWriter.writeUInt32 · (Int32.ofNat f.content.length).toUInt32)]
      (DataWriter.new (List.replicate FileSender.kBufferSize 0)) = (true, w) := hw
  rw [FileSender.metaData, hrun, hwritten, himage]

/-- The name of the file in a folder. -/
def pathname (folder : CString) : Bytes := folder.1 ++ FileEndpoint.delimiter ++ f.name.1

theorem cStr_pathname (folder : CString) :
    cStr (folder.1 ++ FileEndpoint.delimiter ++ f.name.1) = f.pathname folder := by
  rw [pathname, cStr_eq]
  intro h
  rcases List.mem_append.1 h with h | h
  · rcases List.mem_append.1 h with h | h
    · exact folder.2 h
    · exact absurd h (by decide)
  · exact f.name.2 h

/-- What is replied for the file. -/
def reply : Bytes :=
  uIntImage .networkByteOrder 4 (2 + f.name.1.length + 4 + f.content.length)

end SentFile

namespace FileEndpoint

variable {f : SentFile} {s : FileEndpoint} {buffer rest : Bytes} {opens : Bytes → Bool}

/-! ## The header is parsed -/

/-- What is gathered is kept as long as the header is not complete. -/
theorem parserMeta_gather (h : s.metaBuf ++ buffer ++ rest = f.header) (hne : rest ≠ []) :
    s.parserMeta opens buffer = { s with metaBuf := s.metaBuf ++ buffer } := by
  have hlength := congrArg List.length h
  rw [List.length_append, f.header_length] at hlength
  have hrest := List.length_pos_iff.2 hne
  rw [parserMeta]
  cases hread : DataReader.readUInt16 (DataReader.new (s.metaBuf ++ buffer)) with
  | mk value reader =>
    cases value with
    | none => rfl
    | some nameSz =>
      obtain ⟨rfl, hroom⟩ := (DataReader.readUInt_advances (n := 2) (by decide)).map
        UInt16.ofNat _ _ _ hread
      rw [DataReader.bytesRemaining, DataReader.new] at hroom
      dsimp only at hroom
      have hprefix : uIntImage .networkByteOrder 2 f.name.1.length <+: s.metaBuf ++ buffer := by
        refine List.prefix_of_prefix_length_le ?_ (⟨rest, h⟩ : _ <+: f.header) ?_
        · rw [SentFile.header, List.append_assoc]
          exact List.prefix_append _ _
        · rw [uIntImage_length]
          omega
      obtain ⟨more, hmore⟩ := hprefix
      rw [← f.toNat_name] at hmore
      rw [(DataReader.readUInt16_takes _).new hmore.symm] at hread
      obtain rfl : UInt16.ofNat f.name.1.length = nameSz :=
        Option.some.inj (congrArg Prod.fst hread)
      dsimp only
      rw [if_neg]
      rw [f.toNat_name, DataReader.bytesRemaining, DataReader.advancePos, DataReader.new]
      dsimp only
      omega

/-- The header is complete: the file is opened, and what follows is written to it. -/
theorem parserMeta_complete (rest : Bytes) {folder : CString} (hfolder : s.folder = folder.1)
    (hopens : opens (f.pathname folder) = true) (h : s.metaBuf ++ buffer = f.header ++ rest) :
    s.parserMeta opens buffer =
      let s := { s with
        metaBuf := s.metaBuf ++ buffer
        fileBytes := UInt32.ofNat f.content.length
        metaParsed := true
        effects := s.effects ++ [FileEffect.fopen (f.pathname folder)]
        fpOpen := true }
      { (if rest = [] then s else s.write2File rest) with metaBuf := [] } := by
  have hunread : (DataReader.new (s.metaBuf ++ buffer)).unread =
      uIntImage .networkByteOrder 2 (UInt16.ofNat f.name.1.length).toNat ++
        (f.name.1 ++ (uIntImage .networkByteOrder 4 f.content.length ++ rest)) := by
    rw [DataReader.unread_new, h, SentFile.header, f.toNat_name, List.append_assoc,
      List.append_assoc]
  -- what each of the three reads finds: the length of the name, the name, the file's size
  have hsize := DataReader.readUInt16_takes _ _ _ (DataReader.wellFormed_new _ _) rfl hunread
  rw [uIntImage_length] at hsize
  have hunread₁ : ((DataReader.new (s.metaBuf ++ buffer)).advancePos 2).unread =
      f.name.1 ++ (uIntImage .networkByteOrder 4 f.content.length ++ rest) := by
    rw [DataReader.unread_advancePos, hunread]
    exact List.drop_left' (uIntImage_length ..)
  have hwf : ((DataReader.new (s.metaBuf ++ buffer)).advancePos 2).WellFormed :=
    DataReader.wellFormed_new (s.metaBuf ++ buffer) .networkByteOrder
  have hname := DataReader.readBytes_of_unread hwf hunread₁ f.toNat_name.symm
    (by have := f.name_le; rw [f.toNat_name]; omega)
  have hunread₂ : (((DataReader.new (s.metaBuf ++ buffer)).advancePos 2).advancePos
      (UInt16.ofNat f.name.1.length).toNat).unread =
      uIntImage .networkByteOrder 4 (UInt32.ofNat f.content.length).toNat ++ rest := by
    rw [DataReader.unread_advancePos, hunread₁, f.toNat_name, List.drop_left, f.toNat_content]
  have hwf₂ : (((DataReader.new (s.metaBuf ++ buffer)).advancePos 2).advancePos
      (UInt16.ofNat f.name.1.length).toNat).WellFormed := hwf
  have hcontent := DataReader.readUInt32_takes _ _ _ hwf₂ rfl hunread₂
  have hroom : (UInt16.ofNat f.name.1.length).toNat + 4 ≤
      ((DataReader.new (s.metaBuf ++ buffer)).advancePos 2).bytesRemaining := by
    rw [← DataReader.unread_length hwf, hunread₁, List.length_append, List.length_append,
      uIntImage_length, f.toNat_name]
    omega
  -- the content starts where the parser's own sum of the header's length ends
  have hdrop : (s.metaBuf ++ buffer).drop (2 + (UInt16.ofNat f.name.1.length).toNat + 4) =
      rest := by
    rw [h, f.toNat_name]
    exact List.drop_left' f.header_length
  have hremain : (s.metaBuf ++ buffer).length -
      (2 + (UInt16.ofNat f.name.1.length).toNat + 4) = rest.length := by
    rw [← List.length_drop, hdrop]
  have hpath : cStr (s.folder ++ delimiter ++ f.name.1) = f.pathname folder := by
    rw [hfolder, f.cStr_pathname]
  rw [parserMeta, hsize]
  dsimp only
  rw [if_pos hroom, hname]
  dsimp only
  rw [hcontent]
  dsimp only [Option.getD_some]
  simp only [hpath, hopens, hremain, hdrop, if_true]
  by_cases hempty : rest = []
  · simp only [hempty, List.length_nil, gt_iff_lt, lt_irrefl, if_true, if_false]
  · simp only [hempty, gt_iff_lt, List.length_pos_iff.2 hempty, if_true, if_false]

/-! ## What is received of a file -/

/-- What an endpoint does to receive a file, its content in these pieces. -/
def transcript (f : SentFile) (folder : CString) (writes : List Bytes) : List FileEffect :=
  .fopen (f.pathname folder) :: writes.map .fwrite ++ [.send f.reply, .close, .fclose]

/-- An endpoint whose file is open, for the pieces that were written to it. -/
def opened (f : SentFile) (folder : CString) (metaBuf : Bytes) (writes : List Bytes)
    (received : ℕ) : FileEndpoint where
  folder := folder.1
  fpOpen := true
  metaBuf := metaBuf
  fileBytes := UInt32.ofNat f.content.length
  writeBytes := UInt32.ofNat writes.flatten.length
  metaParsed := true
  recvBytes := Int32.ofNat received
  effects := .fopen (f.pathname folder) :: writes.map .fwrite

/-- What an endpoint is, for what it has received of a file: a part of the header, the
    header and a part of the content, or all. -/
inductive Sound (f : SentFile) (folder : CString) : Bytes → FileEndpoint → Prop
  | gathering {all rest : Bytes} (h : all ++ rest = f.header) (hne : rest ≠ []) :
      Sound f folder all
        { folder := folder.1, metaBuf := all, recvBytes := Int32.ofNat all.length }
  | writing {writes : List Bytes} {rest : Bytes} (h : writes.flatten ++ rest = f.content)
      (hne : rest ≠ []) : Sound f folder (f.header ++ writes.flatten)
        (opened f folder [] writes (f.header ++ writes.flatten).length)
  | done {writes : List Bytes} {s : FileEndpoint} (h : writes.flatten = f.content)
      (hclosed : s.fdOpen = false) (heffects : s.effects = transcript f folder writes) :
      Sound f folder (f.header ++ f.content) s

variable {folder : CString}

theorem reply_eq (f : SentFile) :
    ((DataWriter.new (List.replicate 4 0)).writeUInt32
      (Int32.ofNat (f.header ++ f.content).length).toUInt32).2.buffer = f.reply := by
  have hsize : (Int32.ofNat (f.header ++ f.content).length).toUInt32.toNat =
      2 + f.name.1.length + 4 + f.content.length := by
    have hname := f.name_le
    have hcontent := f.content_le
    rw [Int32.toUInt32_ofNat', UInt32.toNat_ofNat', List.length_append, f.header_length]
    omega
  rw [DataWriter.writeUInt32, DataWriter.writeUInt_eq (Nat.zero_le _), hsize,
    if_pos (by decide), SentFile.reply]
  rw [DataWriter.put, DataWriter.new, store, List.take_zero, List.nil_append,
    List.drop_eq_nil_of_le, List.append_nil]
  rw [uIntImage_length]
  decide

@[simp] theorem write2File_metaBuf (buffer : Bytes) (s : FileEndpoint) :
    (s.write2File buffer).metaBuf = s.metaBuf := by
  rw [write2File]
  dsimp only
  split_ifs
  · rw [replyDone, closeFd]
    dsimp only [deleteSelf]
    split_ifs <;> rfl
  · rfl

theorem clear_metaBuf (h : s.metaBuf = []) : { s with metaBuf := [] } = s := by
  rw [← h]

/-- A piece of the content is written: it is the last one, or more is to come. -/
theorem write2File_opened (folder : CString) (metaBuf : Bytes) (writes : List Bytes)
    (h : writes.flatten ++ (buffer ++ rest) = f.content) :
    Sound f folder (f.header ++ (writes.flatten ++ buffer))
      { (opened f folder metaBuf writes (f.header ++ (writes.flatten ++ buffer)).length).write2File
          buffer with metaBuf := [] } := by
  have hflatten : (writes ++ [buffer]).flatten = writes.flatten ++ buffer := by
    rw [List.flatten_append, List.flatten_singleton]
  have hwritten : UInt32.ofNat writes.flatten.length + UInt32.ofNat buffer.length =
      UInt32.ofNat (writes ++ [buffer]).flatten.length := by
    rw [hflatten, List.length_append, UInt32.ofNat_add]
  have hmap : (writes ++ [buffer]).map FileEffect.fwrite =
      writes.map .fwrite ++ [.fwrite buffer] := by
    rw [List.map_append, List.map_singleton]
  have hlength := congrArg List.length h
  rw [List.length_append, List.length_append] at hlength
  rw [← hflatten]
  rw [write2File, opened]
  dsimp only
  rw [hwritten]
  by_cases hrest : rest = []
  · rw [hrest, List.append_nil, ← hflatten] at h
    rw [h, if_pos rfl]
    refine .done h rfl ?_
    rw [replyDone, closeFd, reply_eq, transcript, hmap]
    simp [deleteSelf]
  · rw [if_neg]
    · rw [List.cons_append, ← hmap]
      refine .writing ?_ hrest
      rw [hflatten, List.append_assoc, h]
    · have hle := f.content_le
      have hpos := List.length_pos_iff.2 hrest
      intro heq
      have hnat := congrArg UInt32.toNat heq
      rw [hflatten, f.toNat_content, UInt32.toNat_ofNat', List.length_append] at hnat
      omega

/-- The header is received, and nothing more. -/
theorem sound_opened (f : SentFile) (folder : CString) :
    Sound f folder f.header (opened f folder [] [] f.header.length) := by
  have hopened : Sound f folder (f.header ++ ([] : List Bytes).flatten)
      (opened f folder [] [] (f.header ++ ([] : List Bytes).flatten).length) :=
    .writing (List.nil_append f.content) (List.length_pos_iff.1 f.content_pos)
  rwa [List.flatten_nil, List.append_nil] at hopened

theorem ofNat_length_add (a b : Bytes) :
    Int32.ofNat a.length + Int32.ofNat b.length = Int32.ofNat (a ++ b).length := by
  rw [List.length_append, Int32.ofNat_add]

/-- A read of a file that is sent. -/
theorem onRead_sound (hopens : opens (f.pathname folder) = true) {all : Bytes}
    (hs : Sound f folder all s) (hne : buffer ≠ [])
    (hall : all ++ (buffer ++ rest) = f.header ++ f.content) :
    Sound f folder (all ++ buffer) (s.onRead opens buffer) := by
  cases hs with
  | done h hclosed heffects =>
    -- nothing is left to come
    have hnil : buffer ++ rest = [] := List.append_right_eq_self.1 hall
    exact absurd (List.append_eq_nil_iff.1 hnil).1 hne
  | @writing writes left h hleft =>
    rw [List.append_assoc, List.append_right_inj] at hall
    have hfdOpen : (opened f folder [] writes (f.header ++ writes.flatten).length).fdOpen = true :=
      rfl
    have hparsed : (opened f folder [] writes (f.header ++ writes.flatten).length).metaParsed =
      true := rfl
    rw [onRead, if_pos hfdOpen, if_neg hne]
    dsimp only
    rw [if_pos hparsed]
    dsimp only [opened]
    rw [ofNat_length_add, List.append_assoc]
    have hwrite := write2File_opened (f := f) folder [] writes hall
    rwa [clear_metaBuf (write2File_metaBuf ..)] at hwrite
  | @gathering _ left h hleft =>
    rw [onRead, if_pos rfl, if_neg hne]
    dsimp only
    rw [if_neg (by decide), ofNat_length_add]
    rw [← List.append_assoc] at hall
    -- what is gathered ends in the header, at its end or in the content
    rcases List.append_eq_append_iff.1 hall with ⟨more, hheader, -⟩ | ⟨data, hbuffer, hcontent⟩
    · by_cases hmore : more = []
      · rw [hmore, List.append_nil] at hheader
        rw [parserMeta_complete (f := f) [] rfl hopens
          (by rw [List.append_nil]; exact hheader.symm)]
        dsimp only
        rw [if_pos rfl, ← hheader]
        exact sound_opened f folder
      · rw [parserMeta_gather hheader.symm hmore]
        exact .gathering hheader.symm hmore
    · rw [parserMeta_complete (f := f) data rfl hopens hbuffer]
      dsimp only
      rw [hbuffer]
      by_cases hdata : data = []
      · rw [if_pos hdata, hdata, List.append_nil]
        exact sound_opened f folder
      · rw [if_neg hdata]
        exact write2File_opened folder _ [] hcontent.symm

theorem foldl_onRead_sound (rest : Bytes) (hopens : opens (f.pathname folder) = true)
    {reads : List Bytes} (hne : ∀ buffer ∈ reads, buffer ≠ []) {all : Bytes}
    (hs : Sound f folder all s)
    (hall : all ++ (reads.flatten ++ rest) = f.header ++ f.content) :
    Sound f folder (all ++ reads.flatten) (reads.foldl (onRead opens) s) := by
  induction reads generalizing s all with
  | nil => rwa [List.flatten_nil, List.append_nil]
  | cons buffer reads ih =>
    rw [List.flatten_cons, List.append_assoc] at hall
    have hstep := onRead_sound hopens hs (hne buffer List.mem_cons_self) hall
    rw [List.foldl_cons, List.flatten_cons, ← List.append_assoc]
    refine ih (fun b hb => hne b (List.mem_cons_of_mem _ hb)) hstep ?_
    rw [List.append_assoc]
    exact hall

theorem run_eq (folder : Bytes) (events : List (List Bytes)) :
    run opens folder events = events.flatten.foldl (onRead opens) { folder := folder } := by
  rw [run, List.foldl_flatten]
  rfl

theorem sound_start (f : SentFile) (folder : CString) :
    Sound f folder [] { folder := folder.1 } := by
  refine .gathering (List.nil_append f.header) (List.length_pos_iff.1 ?_)
  rw [f.header_length]
  omega

/-- An endpoint that has received a file, in whatever pieces, has done what it should. -/
theorem run_effects (hopens : opens (f.pathname folder) = true) {events : List (List Bytes)}
    (hne : ∀ buffer ∈ events.flatten, buffer ≠ [])
    (hall : events.flatten.flatten = f.header ++ f.content) :
    ∃ writes, writes.flatten = f.content ∧
      (run opens folder.1 events).effects = transcript f folder writes := by
  have hs := foldl_onRead_sound [] hopens hne (sound_start f folder)
    (by rw [List.append_nil, List.nil_append, hall])
  rw [List.nil_append, hall, ← run_eq] at hs
  generalize hstream : f.header ++ f.content = stream at hs
  generalize run opens folder.1 events = s at hs ⊢
  have hpos := f.content_pos
  cases hs with
  | done h hclosed heffects => exact ⟨_, h, heffects⟩
  | @gathering _ left h hleft =>
    have hlength := congrArg List.length h
    rw [← hstream, List.length_append, List.length_append] at hlength
    omega
  | @writing writes left h hleft =>
    rw [List.append_right_inj] at hstream
    rw [← hstream, List.append_right_eq_self] at h
    exact absurd h hleft

end FileEndpoint

/-! ## The transfer -/

namespace FileSender

variable (f : SentFile) {metaAnswer : ℕ} (answers : List ℕ)

theorem ofNat_content_pos : ¬ Int32.ofNat f.content.length ≤ 0 := by
  have hpos := f.content_pos
  have hle := f.content_le
  rw [Int32.le_iff_toInt_le, Int32.toInt_ofNat_of_lt (by omega), Int32.toInt_zero]
  omega

/-- A sender whose header is taken sends the header and the content. -/
theorem writesOf_flatten (h : f.header.length ≤ metaAnswer) :
    (writesOf f.name.1 f.content metaAnswer answers).flatten = f.header ++ f.content := by
  rw [writesOf]
  dsimp only
  rw [if_neg (ofNat_content_pos f), f.metaData_eq, if_neg (by rw [not_not, Nat.min_eq_right h]),
    List.flatten_cons, sendLoop_flatten _ le_rfl]

/-- A sender that reads the reply is told that the file is received. -/
theorem sendFile_reply (h : f.header.length ≤ metaAnswer) :
    sendFile f.name.1 f.content metaAnswer answers f.reply = 0 := by
  have hsize : f.reply = uIntImage .networkByteOrder 4
      (UInt32.ofNat (2 + f.name.1.length + 4 + f.content.length)).toNat ++ [] := by
    have hname := f.name_le
    have hcontent := f.content_le
    rw [List.append_nil, UInt32.toNat_ofNat', Nat.mod_eq_of_lt (by omega), SentFile.reply]
  have hreply := (DataReader.readUInt32_takes _).new hsize
  rw [sendFile]
  dsimp only
  rw [if_neg (ofNat_content_pos f), f.metaData_eq, if_neg (by rw [not_not, Nat.min_eq_right h]),
    sendLoop_flatten _ le_rfl, hreply, if_pos]
  refine ⟨rfl, ?_⟩
  rw [Option.getD_some, ← Int32.ofNat_add, Int32.toUInt32_ofNat', f.header_length, Nat.add_comm]

end FileSender

/-- A file that is sent, however its bytes are cut into reads, is opened in the folder and
    written as it is, with one reply of the number of its bytes after the last write, from
    which the sender learns that it succeeded. -/
theorem transfer_exact (f : SentFile) (folder : CString) (opens : Bytes → Bool)
    (hopens : opens (f.pathname folder) = true) (metaAnswer : ℕ)
    (hmeta : f.header.length ≤ metaAnswer) (answers : List ℕ) (events : List (List Bytes))
    (hreads : ∀ buffer ∈ events.flatten,
      1 ≤ buffer.length ∧ buffer.length ≤ FileEndpoint.kBufferSize)
    (hcut : events.flatten.flatten =
      (FileSender.writesOf f.name.1 f.content metaAnswer answers).flatten) :
    (∃ writes : List Bytes, writes.flatten = f.content ∧
      (FileEndpoint.run opens folder.1 events).effects =
        .fopen (folder.1 ++ [0x2f] ++ f.name.1) :: writes.map .fwrite ++
          [.send (uIntImage .networkByteOrder 4 (2 + f.name.1.length + 4 + f.content.length)),
            .close, .fclose]) ∧
    FileSender.sendFile f.name.1 f.content metaAnswer answers
      (uIntImage .networkByteOrder 4 (2 + f.name.1.length + 4 + f.content.length)) = 0 := by
  rw [FileSender.writesOf_flatten f answers hmeta] at hcut
  refine ⟨?_, FileSender.sendFile_reply f answers hmeta⟩
  exact FileEndpoint.run_effects hopens
    (fun b hb => List.length_pos_iff.1 (hreads b hb).1) hcut

/-- A file of three bytes, in reads that end in its header, in its content, and with it. -/
def shortFile : SentFile where
  name := ⟨[0x61, 0x62], by decide⟩
  content := [1, 2, 3]
  name_pos := by decide
  name_le := by decide
  content_pos := by decide
  content_le := by decide

theorem transfer_exact_short :
    (∃ writes : List Bytes, writes.flatten = [1, 2, 3] ∧
      (FileEndpoint.run (fun _ => true) [0x2f, 0x64] [[[0], [2, 0x61]],
        [[0x62, 0, 0, 0, 3, 1, 2], [3]]]).effects =
        .fopen ([0x2f, 0x64] ++ [0x2f] ++ [0x61, 0x62]) :: writes.map .fwrite ++
          [.send (uIntImage .networkByteOrder 4 11), .close, .fclose]) ∧
    FileSender.sendFile [0x61, 0x62] [1, 2, 3] 1500 [1]
      (uIntImage .networkByteOrder 4 11) = 0 :=
  transfer_exact shortFile ⟨[0x2f, 0x64], by decide⟩ (fun _ => true) rfl 1500 (by decide) [1]
    [[[0], [2, 0x61]], [[0x62, 0, 0, 0, 3, 1, 2], [3]]] (by decide) (by decide +kernel)

end DashDim
