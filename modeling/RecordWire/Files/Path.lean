import RecordWire.Text.Quoted

/-!
Paths of files. A path is a text; its segments stand between slashes. Tidying a path drops what does
not matter for it: empty segments, points, and a slash at the end.
-/

namespace RecordWire.Path

def slash : CodePoint := 0x2F

def here : Text := "."

def up : Text := ".."

def stays (segment : Text) : Bool := segment.isEmpty || segment = here

def segments (path : Text) : List Text := Text.splitOn slash path

def isAbsolute (path : Text) : Bool := path.head? = some slash

/-- The slashes that a tidy path keeps in front: two only if the path has exactly two. -/
def root (path : Text) : Text :=
  match (path.takeWhile (· = slash)).length with
  | 0 => []
  | 2 => [slash, slash]
  | _ => [slash]

def tidy (path : Text) : Text :=
  let kept := (segments path).filter fun s => !stays s
  let text := root path ++ Text.join [slash] kept
  if text.isEmpty then here else text

/-- The place that a path leads to from another, whatever there is on the way. -/
def follow (start : List Text) (path : Text) : List Text :=
  (segments path).foldl
    (fun place s => if stays s then place else if s = up then place.dropLast else place ++ [s])
    (if isAbsolute path then [] else start)

def below (path : Text) (segments : List Text) : Text :=
  if path = here then Text.join [slash] segments
  else if path.getLast? = some slash then path ++ Text.join [slash] segments
  else path ++ [slash] ++ Text.join [slash] segments

end RecordWire.Path
