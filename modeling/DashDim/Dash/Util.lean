import DashDim.Dash.Client

/-!
# Loading the segment table

The table of segment sizes is read from one log file for each level, as in
`dash/dash_util.cc`: a line of the file is the size of a segment. The rows are
added one after the other, up to the first file that cannot be opened; nothing is
compared between them.

A file is the bytes it holds, or nothing if it cannot be opened. The average bitrate
is exact, and zero for a file without sizes.
-/

namespace DashDim

/-! ## Numbers -/

/-- `isspace` in the C locale. -/
def isSpace (b : UInt8) : Bool := b == 32 || (9 ≤ b && b ≤ 13)

/-- `isdigit`. -/
def isDigit (b : UInt8) : Bool := 48 ≤ b && b ≤ 57

/-- The number that decimal digits stand for. -/
def decimal (digits : List UInt8) : ℤ := digits.foldl (fun n b => 10 * n + (b.toNat - 48 : ℕ)) 0

/-- `strtol` to the base ten, which stops at the bounds of a `long`. -/
def strtol (s : List UInt8) : ℤ :=
  match s.dropWhile isSpace with
  | 45 :: s => max (-decimal (s.takeWhile isDigit)) (-2 ^ 63)
  | 43 :: s => min (decimal (s.takeWhile isDigit)) (2 ^ 63 - 1)
  | s => min (decimal (s.takeWhile isDigit)) (2 ^ 63 - 1)

/-- `atoi`, which keeps the low bits of the `long`. -/
def atoi (s : List UInt8) : Int32 := Int32.ofInt (strtol s)

/-! ## Files -/

/-- The size of a segment, if its line is not empty: the line ends at its first zero
    byte, and splitting it at line ends leaves it whole. -/
def lineSize (line : List UInt8) : Option Int64 :=
  match line.takeWhile (· != 0) with
  | [] => none
  | s => some (atoi s).toInt64

/-- The sizes in a file, line by line. -/
def segmentSizes (content : List UInt8) : List Int64 :=
  (content.splitOn 10).filterMap lineSize

/-- The bitrate of a level: its bits over its duration. -/
def averageBitrate (segmentDuration : ℤ) (segments : List Int64) : ℚ :=
  if segmentDuration > 0 then
    ((segments.sum.toInt * 1000 * 8 : ℤ) : ℚ) / ((segmentDuration * segments.length : ℤ) : ℚ)
  else 0

/-- `ReadSegmentFromFile`: a row for each file, up to the first that cannot be opened. -/
def readSegmentFromFile : List (Option (List UInt8)) → VideoData → VideoData
  | [], videoData => videoData
  | none :: _, videoData => videoData
  | some content :: files, videoData =>
    readSegmentFromFile files { videoData with
      representation := videoData.representation ++ [segmentSizes content]
      averageBitrate := videoData.averageBitrate ++
        [averageBitrate videoData.segmentDuration (segmentSizes content)] }

/-- The table of a client: it is empty before the files are read. -/
def loadTable (files : List (Option (List UInt8))) (segmentMs : ℤ) : VideoData :=
  readSegmentFromFile files ⟨[], [], segmentMs⟩

/-- The rows are those of the files before the first one that cannot be opened. -/
theorem readSegmentFromFile_representation (files : List (Option (List UInt8)))
    (videoData : VideoData) : (readSegmentFromFile files videoData).representation =
      videoData.representation ++
        ((files.takeWhile Option.isSome).filterMap id).map segmentSizes := by
  induction files generalizing videoData with
  | nil => simp [readSegmentFromFile]
  | cons file files ih =>
    cases file with
    | none => simp [readSegmentFromFile]
    | some content => simp [readSegmentFromFile, ih]

/-- Sizes are what the lines begin with; a line without one is a segment of no
    bytes, and an empty line is none. -/
example : segmentSizes [49, 50, 10, 10, 32, 45, 55, 120, 10, 120, 10] = [12, -7, 0] := by decide

end DashDim
