import AnyPlayerSync.Sources.Genius
import AnyPlayerSync.Sources.LastFm
import AnyPlayerSync.Sources.MusicBrainz
import AnyPlayerSync.Sources.Songfacts
import AnyPlayerSync.Sources.Wikidata
import AnyPlayerSync.Sources.Wikipedia

/-!
# The sources

`sources/mod.rs`: the six sources by name. Two of them are configured with a key.
-/

set_option autoImplicit false

namespace AnyPlayerSync.Sources

open AnyPlayerSync.Foundation
open AnyPlayerSync.Passages

/-- The keys of the sources that need one. -/
structure Config where
  lastfmKey : Option Str
  geniusToken : Option Str

/-- `webs` answers each client, by the name of its source or its Wikipedia language. -/
def fetch (U : UnicodeTables) (html : Html) (config : Config) (webs : Str → Web) (name : Str)
    (track : TrackRequest) (scope : Scope) : SourceResult :=
  if name = "wikipedia".toList then Wikipedia.fetch U webs track scope
  else if name = "musicbrainz".toList then (MusicBrainz.fetch U track scope).result (webs name)
  else if name = "wikidata".toList then (Wikidata.fetch U track scope).result (webs name)
  else if name = "songfacts".toList then (Songfacts.fetch U html track scope).result (webs name)
  else if name = "lastfm".toList then
    match config.lastfmKey with
    | some apiKey => (LastFm.fetch U apiKey track scope).result (webs name)
    | none => .ok []
  else if name = "genius".toList then
    match config.geniusToken with
    | some _ => (Genius.fetch U track scope).result (webs name)
    | none => .ok []
  else .error (.permanent ("unknown source ".toList ++ name))

end AnyPlayerSync.Sources
