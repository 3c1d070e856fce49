import PeerExpansion.FileStore
import PeerExpansion.Log
import PeerExpansion.Misuse
import PeerExpansion.Url

/-! # Loading sources

A source comes from a file or from a URL. Loading leaves notes in the log and a record of the
requests that were made, also when it fails.
-/

namespace PeerExpansion

structure SourceText where
  name : String
  text : List Char
deriving DecidableEq

structure WebRequest where
  url : String
  /-- How many seconds to wait. -/
  timeout : Int
deriving DecidableEq

structure WebResponse where
  status : Int
  text : List Char

inductive WebFault
  | timeout
  | connection (reason : String)
  /-- A response was refused, but there is no response to tell the status of. -/
  | noResponse
  | other (reason : String)

/-- What answers a request. -/
abbrev Web := WebRequest → Except WebFault WebResponse

/-- Where sources come from. -/
structure Origin where
  files : FileStore
  web : Web

inductive LoadError
  | nothingGiven
  | bothGiven
  | missingFile (path : FilePath)
  | unreadableFile (path : FilePath) (fault : TextFault)
  | invalidUrl (url : String)
  | timeout (url : String)
  | connection (url : String)
  | status (url : String) (code : Int)
  | request (url reason : String)
  /-- A value was not what the loader takes it for. -/
  | misused (misuse : Misuse)

def LoadError.message : LoadError → String
  | nothingGiven => "Either file_path or url must be provided"
  | bothGiven => "Cannot specify both file_path and url"
  | missingFile path => "File not found: " ++ path.display
  | unreadableFile path fault =>
    "Error reading file " ++ path.display ++ ": " ++ fault.message path
  | invalidUrl url => "Invalid URL: " ++ url
  | timeout url => "Request timeout for URL: " ++ url
  | connection url => "Connection error for URL: " ++ url
  | status url code => "HTTP error " ++ toString code ++ " for URL: " ++ url
  | request url reason => "Request error for URL " ++ url ++ ": " ++ reason
  | misused _ => "The source cannot be loaded"

structure LoadTrace where
  notes : List LogRecord
  requests : List WebRequest

abbrev Loading := ExceptT LoadError (StateM LoadTrace)

namespace SourceText

def logger : String := "imagecache.utils"

def note (level : LogLevel) (message : String) : Loading Unit :=
  modify fun trace => { trace with notes := trace.notes ++ [⟨level, logger, message⟩] }

/-- Notes an error and ends the loading with it. -/
def fail {α : Type} (message : String) (error : LoadError) : Loading α := do
  note .error message
  throw error

def noteLoaded (source : SourceText) : Loading SourceText := do
  note .info ("Loaded " ++ toString source.text.length ++ " characters from " ++ source.name)
  return source

def ofFile (files : FileStore) (path : FilePath) : Loading SourceText := do
  note .debug ("Attempting to load source from file: " ++ path.display)
  if !files.exists? path then
    fail ("File not found: " ++ path.display) (.missingFile path)
  if !path.hasExtension ".swift" then
    note .warning ("File does not have .swift extension: " ++ path.display)
  match files.readText path with
  | .error fault =>
    fail ("Error reading file " ++ path.display ++ ": " ++ fault.message path)
      (.unreadableFile path fault)
  | .ok text => noteLoaded ⟨path.display, text⟩

/-- The lowest status that stands for an error. -/
def firstErrorStatus : Int := 400

def request (web : Web) (request : WebRequest) : Loading WebResponse := do
  let url := request.url
  modify fun trace => { trace with requests := trace.requests ++ [request] }
  match web request with
  | .error .timeout => fail ("Request timeout for URL: " ++ url) (.timeout url)
  | .error (.connection reason) =>
    fail ("Connection error for URL " ++ url ++ ": " ++ reason) (.connection url)
  | .error .noResponse => throw (.misused .notText)
  | .error (.other reason) =>
    fail ("Request error for URL " ++ url ++ ": " ++ reason) (.request url reason)
  | .ok response =>
    if firstErrorStatus ≤ response.status then
      fail ("HTTP error " ++ toString response.status ++ " for URL: " ++ url)
        (.status url response.status)
    return response

def ofUrl (web : Web) (url : String) (timeout : Int) : Loading SourceText := do
  note .debug ("Attempting to load source from URL: " ++ url)
  match Url.parts? url with
  | none => throw (.misused .malformed)
  | some parts =>
    if parts.scheme.isEmpty || parts.authority.isEmpty then
      fail ("Invalid URL format: " ++ url) (.invalidUrl url)
    let response ← request web ⟨url, timeout⟩
    noteLoaded ⟨url, response.text⟩

def standardTimeout : Int := 30

/-- Loads the source from the file or the URL. Exactly one of them has to be given; an empty text is
the same as none. -/
def load (origin : Origin) (path url : String) (timeout : Int) : Loading SourceText :=
  match path.isEmpty, url.isEmpty with
  | true, true => fail "Neither file_path nor url provided" .nothingGiven
  | false, false => fail "Both file_path and url provided" .bothGiven
  | false, true => ofFile origin.files (.ofText path)
  | true, false => ofUrl origin.web url timeout

/-- Runs a piece of loading from an empty trace. -/
def run {α : Type} (loading : Loading α) : Except LoadError α × LoadTrace :=
  (ExceptT.run loading).run ⟨[], []⟩

end SourceText

end PeerExpansion
