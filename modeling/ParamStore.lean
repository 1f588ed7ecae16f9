import ParamStore.Main
import ParamStore.Session
import ParamStore.Proofs.CellTables
import ParamStore.Proofs.Outcome
import ParamStore.Proofs.StoreGrowth
import ParamStore.Proofs.StorePlace
import ParamStore.Proofs.EncodeGrowth
import ParamStore.Proofs.DepotGrowth
import ParamStore.Proofs.SessionRuns
import ParamStore.Proofs.StoreInvariant
import ParamStore.Proofs.ContentAddress
import ParamStore.Proofs.BinaryRound
import ParamStore.Proofs.DecimalLayouts
import ParamStore.Proofs.EncodeCells
import ParamStore.Proofs.FloatText
import ParamStore.Proofs.Grammar
import ParamStore.Proofs.MaterializeFind
import ParamStore.Proofs.NumberTexts
import ParamStore.Proofs.ParserSteps
import ParamStore.Proofs.SourceDerives
import ParamStore.Proofs.SourceFaithful
import ParamStore.Proofs.StoreViews
import ParamStore.Proofs.Rehoming
import ParamStore.Proofs.ReadingOn
import ParamStore.Proofs.EarlierBindings
import ParamStore.Proofs.PathTexts
import ParamStore.Proofs.WrittenReferences
import ParamStore.Proofs.ReferenceLookup
import ParamStore.Proofs.QuotedTexts
import ParamStore.Proofs.Phrases
import ParamStore.Proofs.PhraseReading
import ParamStore.Proofs.KeyedLists
import ParamStore.Proofs.QuietReading
import ParamStore.Proofs.OptionsRestrict
import ParamStore.Proofs.ClearedValues
import ParamStore.Proofs.ReadDocuments
import ParamStore.Proofs.MaterializeDocument
import ParamStore.Proofs.DocumentTable
import ParamStore.Proofs.TableKeys
import ParamStore.Proofs.PrologItems
import ParamStore.Proofs.PlacedCells
import ParamStore.Proofs.PathUpdates
import ParamStore.Proofs.IntegerTexts
import ParamStore.Proofs.IntegerLiterals
import ParamStore.Proofs.TypedValues
import ParamStore.Proofs.CanonicalCells
import ParamStore.Proofs.ComposedSessions
import ParamStore.Proofs.JsonExport
import ParamStore.Proofs.EditedTables
import ParamStore.Proofs.StoreWalks
import ParamStore.Proofs.FailedInserts
import ParamStore.Proofs.SpacedSources
import ParamStore.Proofs.UnplacedReading
import ParamStore.Proofs.TablePaths
import ParamStore.Proofs.InsertedPaths
import ParamStore.Proofs.OpenPaths
import ParamStore.Proofs.ErasedPaths
import ParamStore.Proofs.RefusedPuts
import ParamStore.Proofs.CanonicalStrings
import ParamStore.Proofs.TypedLookups
import ParamStore.Proofs.ExactIntegers
import ParamStore.Proofs.ReplacedCells
import ParamStore.Proofs.RepeatedPuts
import ParamStore.Proofs.StoredFloats
import ParamStore.Proofs.LosslessTokens
import ParamStore.Proofs.DeferredValues
import ParamStore.Proofs.PathGrammar
import ParamStore.Proofs.IdentifierTexts
import ParamStore.Proofs.JsonPaths
import ParamStore.Proofs.ReportedPositions
