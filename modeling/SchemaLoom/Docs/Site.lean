import SchemaLoom.Docs.Page
import SchemaLoom.FileSystem

/-!
# Where documentation pages are

A site is a directory of markdown pages. The address of a page is a URL below the site's base URL,
or a path that looks like no URL; a fragment or query does not count.
-/

namespace SchemaLoom.Docs

structure Site where
  root : Path
  baseUrl : Option String
deriving DecidableEq, Repr

/-- Why there is no page for an address. -/
inductive Unavailable where
  | outsideBase (url : String)
  | noPage (url : String)
  | unreadable (file : Path) (cause : FileError)
deriving DecidableEq, Repr

def Unavailable.message : Unavailable → String
  | .outsideBase url => s!"`{url}` is not below the configured docs base url"
  | .noPage url => s!"`{url}` does not name a documentation page"
  | .unreadable file cause =>
    let path := file.text
    let reason := cause.message
    s!"failed to read {path}: {reason}"

namespace Site

/-- The part of an address below the base URL. -/
def address? (s : Site) (url : String) : Except Unavailable (List Char) :=
  match s.baseUrl.bind fun base => Text.afterStart? base.toList url.toList with
  | some relative => .ok relative
  | none =>
    if Text.occursIn "://".toList url.toList then .error (.outsideBase url) else .ok url.toList

/-- The path of a page below the root of the site. -/
def relativePage (address : List Char) : List Char :=
  ((address.dropWhile (· == '/')).reverse.dropWhile (· == '/')).reverse.takeWhile
    fun c => !(c == '#' || c == '?')

/-- The file of a page. -/
def pageFile (s : Site) (url : String) : Except Unavailable Path :=
  match s.address? url with
  | .error e => .error e
  | .ok address =>
    let relative := relativePage address
    if relative.isEmpty || (Text.splitOn '/' relative).contains ['.', '.'] then .error (.noPage url)
    else
      let file := s.root.join (Path.ofChars relative)
      .ok (if file.extension? = some "md" then file else file.withExtension "md")

/-- The page at an address. -/
def page (s : Site) (fs : FileSystem) (url : String) : Except Unavailable Page :=
  match s.pageFile url with
  | .error e => .error e
  | .ok file =>
    match fs.readText file with
    | .ok text => .ok (Page.parse text)
    | .error cause => .error (.unreadable file cause)

end Site

end SchemaLoom.Docs
