import ColorMarkup.Catalogue
import ColorMarkup.Journal.Open
import ColorMarkup.Settings.Store
import ColorMarkup.Proofs.Markup.Substitution
import ColorMarkup.Proofs.Text.Utf8
import ColorMarkup.Proofs.Escape.Removal
import ColorMarkup.Proofs.Markup.Replacement
import ColorMarkup.Proofs.Source
import ColorMarkup.Proofs.Capacity
import ColorMarkup.Proofs.Target
import ColorMarkup.Proofs.Markup.RoundTrip
import ColorMarkup.Proofs.Text.Codec
import ColorMarkup.Proofs.Markup.Cut
import ColorMarkup.Proofs.Escape.Characters
import ColorMarkup.Proofs.Numeral.Acceptance
import ColorMarkup.Proofs.Markup.Characters
import ColorMarkup.Proofs.Mode.History
import ColorMarkup.Proofs.ReadBack
import ColorMarkup.Proofs.Json.Keys
import ColorMarkup.Proofs.Files.Alike
import ColorMarkup.Proofs.Files.Path
import ColorMarkup.Proofs.Settings.Access
import ColorMarkup.Proofs.Settings.Load
import ColorMarkup.Proofs.Files.Open
import ColorMarkup.Proofs.Settings.Place
import ColorMarkup.Proofs.Settings.Reachable
import ColorMarkup.Proofs.Journal.Configure
import ColorMarkup.Proofs.Journal.SetUp
import ColorMarkup.Proofs.Settings.Precedence
import ColorMarkup.Proofs.Settings.Usable
import ColorMarkup.Proofs.Json.Quote
import ColorMarkup.Proofs.Json.RoundTrip
import ColorMarkup.Proofs.Settings.RoundTrip
import ColorMarkup.Proofs.Escape.Spans
import ColorMarkup.Proofs.Markup.Again
import ColorMarkup.Proofs.Markup.Refusal
import ColorMarkup.Proofs.Mode.Isolation
import ColorMarkup.Proofs.Escape.Shape
import ColorMarkup.Proofs.Numeral.Printed
import ColorMarkup.Proofs.Escape.Builder
import ColorMarkup.Proofs.Markup.Single
import ColorMarkup.Proofs.Markup.Converted
import ColorMarkup.Proofs.Escape.Directions
import ColorMarkup.Proofs.Markup.Directions
import ColorMarkup.Proofs.Escape.Length
import ColorMarkup.Proofs.Markup.Size
import ColorMarkup.Proofs.Files.Normal
import ColorMarkup.Proofs.Settings.Searched
import ColorMarkup.Proofs.Files.Make
import ColorMarkup.Proofs.Json.Writable
import ColorMarkup.Proofs.Settings.Refused
import ColorMarkup.Proofs.Color.Level
import ColorMarkup.Proofs.Journal.Delivery
import ColorMarkup.Proofs.Sink.Calls
