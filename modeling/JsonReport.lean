import JsonReport.Main
import JsonReport.Proofs.CharacterEncoding
import JsonReport.Proofs.DecodeFailure
import JsonReport.Proofs.DocumentGrammar
import JsonReport.Proofs.MarkReading
import JsonReport.Proofs.MemberMerging
import JsonReport.Proofs.NumberReading
import JsonReport.Proofs.Recognition
import JsonReport.Proofs.RenderRoundTrip
import JsonReport.Proofs.RenderedTokens
import JsonReport.Proofs.SettingsAgreement
import JsonReport.Proofs.SettingsDraft
import JsonReport.Proofs.SettingsReading
import JsonReport.Proofs.SkippedDocuments
import JsonReport.Proofs.SpellingIndependence
import JsonReport.Proofs.StringReading
import JsonReport.Proofs.ValueReading
import JsonReport.Proofs.ValueShape
import JsonReport.Proofs.ValueSoundness
import JsonReport.Proofs.EncodingValidity
import JsonReport.Proofs.RawStrings
import JsonReport.Proofs.SkippedSoundness
import JsonReport.Proofs.OctetAgreement
import JsonReport.Proofs.SettingsFiles
import JsonReport.Proofs.StreamedWriting
import JsonReport.Proofs.PaintedText
import JsonReport.Proofs.MismatchHints
import JsonReport.Proofs.FailurePlaces
import JsonReport.Proofs.RefusalCauses
import JsonReport.Proofs.ReportLine
import JsonReport.Proofs.RunOutcome
import JsonReport.Proofs.SettingsRoundTrip
import JsonReport.Proofs.LayoutRemoval
import JsonReport.Proofs.IntegerLiterals
import JsonReport.Proofs.RoundedRanks
import JsonReport.Proofs.ShortestDecimals
import JsonReport.Proofs.DecimalReading
import JsonReport.Proofs.ScaledReading
import JsonReport.Proofs.DoubleRoundTrip
import JsonReport.Proofs.FailureDetails
import JsonReport.Proofs.LineBeginnings
