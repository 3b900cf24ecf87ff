namespace RadarTimeline.Path

def pieces (path : String) : List String := path.splitOn "/"

def isAbsolute (path : String) : Bool := path.startsWith "/"

/-- The named components of a path; `.` and repeated slashes name nothing. -/
def components (path : String) : List String :=
  (pieces path).filter fun c => c != "" && c != "."

/-- Cancels `..` against the component before it. Above the start of a relative path `..` stays. -/
def cancel (absolute : Bool) (done : List String) : List String → List String
  | [] => done.reverse
  | ".." :: rest =>
    match done with
    | [] => if absolute then cancel absolute [] rest else cancel absolute [".."] rest
    | last :: before =>
      if last = ".." then cancel absolute (".." :: done) rest else cancel absolute before rest
  | c :: rest => cancel absolute (c :: done) rest

/-- The shortest path with the same components; a slash at the end is kept. -/
def normalize (path : String) : String :=
  if path = "" then "."
  else
    let body := String.intercalate "/" (cancel (isAbsolute path) [] (components path))
    let trailing := path.endsWith "/"
    if body = "" then (if isAbsolute path then "/" else if trailing then "./" else ".")
    else (if isAbsolute path then "/" else "") ++ body ++ (if trailing then "/" else "")

def join (base path : String) : String :=
  normalize (String.intercalate "/" ([base, path].filter (· != "")))

/-- The text of a path without the slashes at its end. -/
def withoutTrailing (path : List Char) : List Char :=
  (path.reverse.dropWhile (· = '/')).reverse

/-- The last component; slashes after it do not count. -/
def lastChars (path : List Char) : List Char :=
  ((withoutTrailing path).reverse.takeWhile (· != '/')).reverse

def base (path : String) : String := String.ofList (lastChars path.toList)

/-- The extension with its dot. A dot that begins the name begins no extension. -/
def extension (path : String) : String :=
  let name := lastChars path.toList
  let after := name.reverse.takeWhile (· != '.')
  let before := name.take (name.length - after.length - 1)
  if after.length = name.length || before.isEmpty || (before = ['.'] && after.isEmpty) then ""
  else String.ofList ('.' :: after.reverse)

def stem (path : String) : String :=
  let name := lastChars path.toList
  String.ofList (name.take (name.length - (extension path).length))

def directory (path : String) : String :=
  let rest := (withoutTrailing path.toList).reverse.dropWhile (· != '/')
  match rest with
  | [] => if isAbsolute path then "/" else "."
  | [_] => "/"
  | _ :: before => if before = ['/'] then "//" else String.ofList before.reverse

/-- The path without its extension, if it has one. -/
def withoutExtension (path : String) : String :=
  let ext := (extension path).length
  String.ofList (path.toList.take (path.length - ext))

end RadarTimeline.Path
