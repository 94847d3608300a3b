import EvcStream.Proofs.Bits.CodeWords
import EvcStream.Proofs.Bits.Refining
import EvcStream.Proofs.DecoderConfig.Counting
import EvcStream.Proofs.DecoderConfig.Priming
import EvcStream.Proofs.PictureOrder.Implied
import EvcStream.Proofs.PictureOrder.Landing
import EvcStream.Proofs.Store.Integrity
import EvcStream.Proofs.Store.SelfDelimiting
import EvcStream.Proofs.Stream.Likeness
import EvcStream.Proofs.Stream.Summary
