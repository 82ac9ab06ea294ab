import AnyPlayerSync.Foundation.Json
import AnyPlayerSync.Sync.Model

/-!
# Passages: data model

The values that ingest passes around: the track to ingest, the documents that a source builds for
it and the ways in which a source can fail.
-/

set_option autoImplicit false

namespace AnyPlayerSync.Passages

open AnyPlayerSync.Foundation

/-- What a document is about. -/
inductive Subject where
  | song
  | album
  | artist
  deriving DecidableEq

/-- The text of the column `subject`. -/
def Subject.asStr : Subject → Str
  | .song => "song".toList
  | .album => "album".toList
  | .artist => "artist".toList

/-- The track of a lookup or of an ingest job. -/
structure TrackRequest where
  song : Str
  artist : Str
  album : Option Str
  deriving DecidableEq

/-- A document ready to store. `song` and `album` are the track's names, `artist` the single
credited artist that matched at the source. -/
structure NewDocument where
  source : Str
  sourceRef : Str
  sourceUrl : Str
  subject : Subject
  song : Option Str
  album : Option Str
  artist : Str
  title : Str
  lang : Str
  body : Str
  deriving DecidableEq

/-- Which subjects to fetch. -/
structure Scope where
  song : Bool
  album : Bool
  artist : Bool

/-- Worth retrying, or not worth retrying soon. -/
inductive SourceError where
  | transient (message : Str)
  | permanent (message : Str)

/-- What a source returns. -/
abbrev SourceResult := Except SourceError (List NewDocument)

/-- The bound on the body of a document. -/
def maxBodyBytes : Nat := 5 * 1024 * 1024

end AnyPlayerSync.Passages
